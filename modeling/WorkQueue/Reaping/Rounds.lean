import WorkQueue.System

/-! # Several reapers on one store

Reapers take turns on a store, one command at a time, each for its own round. We look at one
dead pool, while all other pools are alive: what a reaper does is then one of the moves of
`Reapers.Move`. The moves never lose a job of the dead pool, and they keep the locks balanced
until its entry is subtracted (`Reapers.Reaping`). The clean-up proceeds in one direction:
the lists are empty before the heartbeat is deleted, and the heartbeat is deleted before the
pool is removed.
-/

/-- Reapers on a store, and how many rounds each of them has ended. -/
structure Reapers (ID : Type) where
  store : Store
  state : ID → Reaper.State
  rounds : ID → ℕ

namespace Reapers

section System

variable {ID : Type} [DecidableEq ID]

/-- No reaper has begun. -/
def start (store : Store) : Reapers ID := ⟨store, fun _ => .idle, fun _ => 0⟩

/-- A reaper takes a step. -/
def step (curJobTypes : ID → List String) (reapers : Reapers ID) (event : ID × Reaper.Event) :
    Option (Reapers ID) :=
  (Reaper.step (curJobTypes event.1) reapers.store (reapers.state event.1) event.2).map
    fun (store, state) =>
      { store := store
        state := Function.update reapers.state event.1 state
        rounds := if state = .idle then
            Function.update reapers.rounds event.1 (reapers.rounds event.1 + 1)
          else reapers.rounds }

/-- Reapers that begin with a store. -/
def system (curJobTypes : ID → List String) (store : Store) :
    TransitionSystem (Reapers ID) (ID × Reaper.Event) where
  initial reapers := reapers = start store
  step := step curJobTypes

/-- The reapers of a system. -/
def ofSystem (state : System.State) (rounds : PoolID → ℕ) : Reapers PoolID :=
  ⟨state.redis, fun id => (state.pools id).reaper, rounds⟩

/-- The reapers of the pools of a system take their steps as reapers do here, each with the job
names of its pool. -/
theorem step_ofSystem {deployment : Deployment} {state next : System.State} {id : PoolID}
    {event : Reaper.Event} (stepped : System.step deployment state (.pool id (.reaper event)) =
      some next) (rounds : PoolID → ℕ) :
    ∃ later, step (fun id => (deployment.pool id).names) (ofSystem state rounds) (id, event) =
      some (ofSystem next later) := by
  obtain ⟨⟨redis, pool⟩, moved, rfl⟩ := Option.map_eq_some_iff.mp stepped
  obtain ⟨-, moved⟩ := Option.ite_none_right_eq_some.mp moved
  obtain ⟨⟨store, reaper⟩, reaped, same⟩ := Option.map_eq_some_iff.mp moved
  cases same
  refine ⟨if reaper = .idle then Function.update rounds id (rounds id + 1) else rounds, ?_⟩
  simp only [step, ofSystem, reaped, Option.map_some, Option.some.injEq, Reapers.mk.injEq,
    true_and, and_true]
  funext other
  by_cases same : other = id
  · rw [same, Function.update_self, Function.update_self]
  · rw [Function.update_of_ne same, Function.update_of_ne same]

/-- A pool without a heartbeat or with an old one. -/
def FoundDead (heartbeat : Option Heartbeat) (now : Int64) : Prop :=
  ∀ beat ∈ heartbeat, beat.heartbeatAt.toInt + deadTime ≤ now.toInt

instance (heartbeat : Option Heartbeat) (now : Int64) : Decidable (FoundDead heartbeat now) :=
  inferInstanceAs (Decidable (∀ _ ∈ _, _))

/-- The commands succeed, and whenever a reaper looks at a heartbeat, it finds the given pool
dead and every other one alive. -/
def OnlyDead (dead : PoolID) (reapers : Reapers ID) (event : ID × Reaper.Event) : Prop :=
  event.2.reply = .ok ∧
    match event.2, reapers.state event.1 with
    | .heartbeatAt now _, .scanning (pool :: _) _ =>
        FoundDead (reapers.store.heartbeat pool) now ↔ pool = dead
    | _, _ => True

instance (dead : PoolID) (reapers : Reapers ID) (event : ID × Reaper.Event) :
    Decidable (OnlyDead dead reapers event) := by
  unfold OnlyDead
  split <;> infer_instance

/-- Every reaper has ended its rounds, and there was one. -/
def Complete (reapers : Reapers ID) : Prop :=
  (∀ id, reapers.state id = .idle) ∧ ∃ id, 0 < reapers.rounds id

omit [DecidableEq ID] in
instance [Fintype ID] (reapers : Reapers ID) : Decidable (Complete reapers) :=
  inferInstanceAs (Decidable (_ ∧ _))

end System

section Moves

variable {dead : PoolID} {names curJobTypes : List String} {redis next : Store}
  {before after : Reaper.State}

/-- The lists in progress of a pool are empty. -/
def Drained (dead : PoolID) (redis : Store) : Prop :=
  ∀ name, redis.list (.inProgress dead name) = []

/-- The pools that a reaper has found dead: only the given one, with its job names, or without
any after its heartbeat was deleted. -/
def Entries (dead : PoolID) (names : List String) (redis : Store)
    (found : List (PoolID × List String)) : Prop :=
  ∀ entry ∈ found, entry.1 = dead ∧
    (entry.2 = names ∨ entry.2 = [] ∧ redis.heartbeat dead = none)

/-- What a reaper knows in its states. -/
def Sound (dead : PoolID) (names curJobTypes : List String) (redis : Store) : Reaper.State → Prop
  | .idle => True
  | .scanning _ found => Entries dead names redis found
  | .reading pool _ found => pool = dead ∧ Entries dead names redis found
  | .requeueing pool jobTypes todo =>
      pool = dead ∧ Entries dead names redis todo ∧ jobTypes = names
  | .deleting pool jobTypes todo =>
      pool = dead ∧ Entries dead names redis todo ∧ jobTypes = names ∧ Drained dead redis
  | .removing pool lockJobTypes todo =>
      pool = dead ∧ Entries dead names redis todo ∧
        (lockJobTypes = names ∨ lockJobTypes = curJobTypes) ∧ redis.heartbeat dead = none
  | .cleaning pool lockJobTypes todo =>
      pool = dead ∧ Entries dead names redis todo ∧
        (lockJobTypes = names ∨ lockJobTypes = curJobTypes) ∧ redis.heartbeat dead = none ∧
        dead ∉ redis.workerPools

/-- The steps of a reaper whose commands succeed and that finds only the given pool dead. -/
inductive Move (dead : PoolID) (curJobTypes : List String) (redis : Store) :
    Reaper.State → Store → Reaper.State → Prop
  | listed {order : List PoolID} : order.toFinset = redis.workerPools → order.Nodup →
      Move dead curJobTypes redis .idle redis (.scanning order [])
  | passed {pool : PoolID} {todo : List PoolID} {found : List (PoolID × List String)} :
      pool ≠ dead →
      Move dead curJobTypes redis (.scanning (pool :: todo) found) redis (.scanning todo found)
  | expired {todo : List PoolID} {found : List (PoolID × List String)} :
      redis.heartbeat dead = none →
      Move dead curJobTypes redis (.scanning (dead :: todo) found) redis
        (.scanning todo (found ++ [(dead, [])]))
  | old {todo : List PoolID} {found : List (PoolID × List String)} :
      redis.heartbeat dead ≠ none →
      Move dead curJobTypes redis (.scanning (dead :: todo) found) redis (.reading dead todo found)
  | gone {todo : List PoolID} {found : List (PoolID × List String)} :
      redis.heartbeat dead = none →
      Move dead curJobTypes redis (.reading dead todo found) redis (.scanning todo found)
  | read {todo : List PoolID} {found : List (PoolID × List String)} {heartbeat : Heartbeat} :
      redis.heartbeat dead = some heartbeat →
      Move dead curJobTypes redis (.reading dead todo found) redis
        (.scanning todo (found ++ [(dead, splitNames heartbeat.jobNames)]))
  | begun {found order : List (PoolID × List String)} : order.Perm found →
      Move dead curJobTypes redis (.scanning [] found) redis (Reaper.proceed curJobTypes order)
  | requeued {jobTypes : List String} {todo : List (PoolID × List String)} {name : String}
      {raw : RawJSON} {rest : List RawJSON} : name ∈ jobTypes →
      redis.list (.inProgress dead name) = rest ++ [raw] →
      Move dead curJobTypes redis (.requeueing dead jobTypes todo)
        ((redis.move (.inProgress dead name) (.jobs name) rest raw).releaseLock name dead)
        (.requeueing dead jobTypes todo)
  | emptied {jobTypes : List String} {todo : List (PoolID × List String)} :
      (∀ name ∈ jobTypes, redis.list (.inProgress dead name) = []) →
      Move dead curJobTypes redis (.requeueing dead jobTypes todo) redis
        (.deleting dead jobTypes todo)
  | deleted {jobTypes : List String} {todo : List (PoolID × List String)} :
      Move dead curJobTypes redis (.deleting dead jobTypes todo) (Reaper.delHeartbeat redis dead)
        (.removing dead jobTypes todo)
  | removed {lockJobTypes : List String} {todo : List (PoolID × List String)} :
      Move dead curJobTypes redis (.removing dead lockJobTypes todo) (Reaper.sremPool redis dead)
        (.cleaning dead lockJobTypes todo)
  | cleaned {lockJobTypes : List String} {todo : List (PoolID × List String)} :
      Move dead curJobTypes redis (.cleaning dead lockJobTypes todo)
        (redis.redisLuaReapStaleLocks dead lockJobTypes) (Reaper.proceed curJobTypes todo)

theorem move_of_step {ID : Type} [DecidableEq ID] {curJobTypes : ID → List String}
    {reapers target : Reapers ID} {event : ID × Reaper.Event}
    (sound : Sound dead names (curJobTypes event.1) reapers.store (reapers.state event.1))
    (only : OnlyDead dead reapers event)
    (stepped : step curJobTypes reapers event = some target) :
    ∃ state, Move dead (curJobTypes event.1) reapers.store (reapers.state event.1) target.store
        state ∧ target.state = Function.update reapers.state event.1 state ∧
      target.rounds = if state = .idle then
          Function.update reapers.rounds event.1 (reapers.rounds event.1 + 1)
        else reapers.rounds := by
  obtain ⟨id, event⟩ := event
  obtain ⟨⟨store, state⟩, moved, rfl⟩ := Option.map_eq_some_iff.mp stepped
  obtain ⟨answered, judged⟩ := only
  refine ⟨state, ?_, rfl, rfl⟩
  generalize reapers.state id = current at moved sound judged
  cases Reaper.step_cases moved with
  | listed complete distinct => exact .listed complete distinct
  | @expired pool _ _ _ missing =>
      obtain rfl : pool = dead := judged.mp (by rw [missing]; exact nofun)
      exact .expired missing
  | @alive pool _ _ _ beat present young =>
      refine .passed fun same => ?_
      have late := judged.mpr same beat present
      omega
  | @old pool _ _ _ beat present late =>
      obtain rfl : pool = dead := by
        refine judged.mp ?_
        rw [present]
        rintro _ ⟨⟩
        exact late
      exact .old (by rw [present]; exact nofun)
  | gone missing =>
      obtain ⟨rfl, -⟩ := sound
      exact .gone missing
  | dead present =>
      obtain ⟨rfl, -⟩ := sound
      exact .read present
  | begun same => exact .begun same
  | requeued member split _ next =>
      obtain ⟨rfl, -⟩ := sound
      rw [next answered]
      exact .requeued member split
  | emptied empty =>
      obtain ⟨rfl, -⟩ := sound
      exact .emptied empty
  | deleted _ next =>
      obtain ⟨rfl, -⟩ := sound
      rw [next answered]
      exact .deleted
  | removed _ next =>
      obtain ⟨rfl, -⟩ := sound
      rw [next answered]
      exact .removed
  | cleaned _ next =>
      obtain ⟨rfl, -⟩ := sound
      rw [next answered]
      exact .cleaned
  | aborted failed => exact absurd answered failed

end Moves

section Invariant

variable {dead : PoolID} {names curJobTypes : List String} {start redis next : Store}
  {before after : Reaper.State}

/-- A pool has jobs of a name in progress, or an entry among the holders of its lock. -/
def Pending (dead : PoolID) (redis : Store) (name : String) : Prop :=
  redis.list (.inProgress dead name) ≠ [] ∨ (redis.lockInfo name).get dead ≠ none

/-- What the other pools hold of a lock. -/
def others (dead : PoolID) (redis : Store) (name : String) : ℤ :=
  ((redis.lockInfo name).erase dead).total

/-- A dead pool as reapers find it: it is listed with a heartbeat that gives all its job names,
and the locks are balanced. -/
structure Left (dead : PoolID) (names : List String) (redis : Store) : Prop where
  listed : dead ∈ redis.workerPools
  heartbeat : ∃ heartbeat, redis.heartbeat dead = some heartbeat ∧
    splitNames heartbeat.jobNames = names
  names : ∀ name, Pending dead redis name → name ∈ names
  balanced : ∀ name, (redis.ledger name).Balanced

/-- What reapers have made of a store: the jobs in progress of the dead pool move to their
queues, the locks are balanced where the pool still has something, and where it had something
and has no more the lock is what the other pools hold, or zero. -/
structure Reaping (dead : PoolID) (start redis : Store) : Prop where
  frame : (redis.zset, redis.paused, redis.maxConcurrency, redis.unique, redis.knownJobs) =
    (start.zset, start.paused, start.maxConcurrency, start.unique, start.knownJobs)
  lists : ∀ key, (∀ name, key ≠ .jobs name ∧ key ≠ .inProgress dead name) →
    redis.list key = start.list key
  queues : ∀ name,
    (redis.list (.jobs name) ++ redis.list (.inProgress dead name)).Perm
      (start.list (.jobs name) ++ start.list (.inProgress dead name))
  holders : ∀ name, (redis.lockInfo name).erase dead = (start.lockInfo name).erase dead
  balanced : ∀ name, Pending dead redis name →
    Pending dead start name ∧ (redis.ledger name).Balanced
  settled : ∀ name, ¬ Pending dead redis name → Pending dead start name →
    redis.lock name = some (max 0 (others dead start name))
  untouched : ∀ name, ¬ Pending dead start name → redis.lock name = start.lock name
  pools : redis.workerPools = start.workerPools ∨ redis.workerPools = start.workerPools.erase dead
  heartbeats : redis.heartbeat = start.heartbeat ∨
    redis.heartbeat = Function.update start.heartbeat dead none
  drained : redis.heartbeat dead = none → Drained dead redis
  absent : dead ∉ redis.workerPools → redis.heartbeat dead = none

theorem Left.reaping (left : Left dead names start) : Reaping dead start start where
  frame := rfl
  lists _ _ := rfl
  queues _ := .rfl
  holders _ := rfl
  balanced name pending := ⟨pending, left.balanced name⟩
  settled _ nothing pending := absurd pending nothing
  untouched _ _ := rfl
  pools := .inl rfl
  heartbeats := .inl rfl
  drained missing := by
    obtain ⟨heartbeat, present, -⟩ := left.heartbeat
    cases present.symm.trans missing
  absent unlisted := absurd left.listed unlisted

/-- Moving a job back leaves the pool with an entry, if only a zero. -/
theorem pending_requeued {name other : String} {raw : RawJSON} {rest : List RawJSON}
    (split : redis.list (.inProgress dead name) = rest ++ [raw]) :
    Pending dead ((redis.move (.inProgress dead name) (.jobs name) rest raw).releaseLock name
      dead) other ↔ Pending dead redis other := by
  unfold Pending
  by_cases same : other = name
  · subst same
    simp [Store.releaseLock, Store.incrby, Store.hincrby, split]
  · rw [Store.list_releaseLock, Store.list_move_of_ne (by simpa using same) (by simp),
      Store.get_releaseLock_of_ne (by simp [same])]
    rfl

namespace Reaping

/-- A job in progress goes back to its queue, and its lock is returned. -/
theorem requeued (reaping : Reaping dead start redis) {name : String} {raw : RawJSON}
    {rest : List RawJSON} (split : redis.list (.inProgress dead name) = rest ++ [raw]) :
    Reaping dead start
      ((redis.move (.inProgress dead name) (.jobs name) rest raw).releaseLock name dead) := by
  have nonempty : redis.list (.inProgress dead name) ≠ [] := by
    rw [split]
    exact List.append_ne_nil_of_right_ne_nil _ (by simp)
  have pending : Pending dead redis name := .inl nonempty
  refine ⟨reaping.frame, fun key other => ?_, fun other => ?_, fun other => ?_, fun other now => ?_,
    fun other done => ?_, fun other nothing => ?_, reaping.pools, reaping.heartbeats,
    fun missing => ?_, reaping.absent⟩
  · rw [Store.list_releaseLock, Store.list_move_of_ne (other name).2 (other name).1]
    exact reaping.lists key other
  · refine .trans ?_ (reaping.queues other)
    rw [Store.list_releaseLock]
    by_cases same : other = name
    · subst same
      rw [Store.list_move_target, Store.list_move_source (by simp), split, List.cons_append,
        ← List.append_assoc]
      exact (List.perm_append_singleton _ _).symm
    · rw [Store.list_move_of_ne (by simp) (by simpa using same),
        Store.list_move_of_ne (by simpa using same) (by simp)]
  · rw [← reaping.holders other]
    by_cases same : other = name
    · subst same
      simp only [Store.releaseLock, Store.incrby, Store.hincrby, Function.update_self]
      exact FinMap.erase_set_self _ _ _
    · simp only [Store.releaseLock, Store.incrby, Store.hincrby, Function.update_of_ne same]
      rfl
  · by_cases same : other = name
    · subst same
      obtain ⟨had, balanced⟩ := reaping.balanced other pending
      rw [Store.ledger_releaseLock]
      exact ⟨had, Ledger.Balanced.release balanced dead⟩
    · rw [Store.ledger_releaseLock_of_ne _ _ _ same]
      exact reaping.balanced other ((pending_requeued split).mp now)
  · rw [pending_requeued split] at done
    have same : other ≠ name := by
      rintro rfl
      exact done pending
    simp only [Store.releaseLock, Store.incrby, Store.hincrby, Function.update_of_ne same]
    exact reaping.settled other done
  · have same : other ≠ name := by
      rintro rfl
      exact nothing (reaping.balanced other pending).1
    simp only [Store.releaseLock, Store.incrby, Store.hincrby, Function.update_of_ne same]
    exact reaping.untouched other nothing
  · exact absurd (reaping.drained missing name) nonempty

/-- The heartbeat is deleted when the lists are empty. -/
theorem deleted (reaping : Reaping dead start redis) (drained : Drained dead redis) :
    Reaping dead start (Reaper.delHeartbeat redis dead) where
  frame := reaping.frame
  lists := reaping.lists
  queues := reaping.queues
  holders := reaping.holders
  balanced := reaping.balanced
  settled := reaping.settled
  untouched := reaping.untouched
  pools := reaping.pools
  heartbeats := by
    refine .inr ?_
    rcases reaping.heartbeats with same | gone
    · simp only [Reaper.delHeartbeat, same]
    · simp only [Reaper.delHeartbeat, gone, Function.update_idem]
  drained _ := drained
  absent _ := Function.update_self _ _ _

/-- The pool is removed when it has no heartbeat. -/
theorem removed (reaping : Reaping dead start redis) (missing : redis.heartbeat dead = none) :
    Reaping dead start (Reaper.sremPool redis dead) where
  frame := reaping.frame
  lists := reaping.lists
  queues := reaping.queues
  holders := reaping.holders
  balanced := reaping.balanced
  settled := reaping.settled
  untouched := reaping.untouched
  pools := by
    refine .inr ?_
    rcases reaping.pools with same | gone
    · simp only [Reaper.sremPool, same]
    · simp only [Reaper.sremPool, gone, Finset.erase_idem]
  heartbeats := reaping.heartbeats
  drained := reaping.drained
  absent _ := missing

/-- The entry of the pool is subtracted from the locks. -/
theorem cleaned (reaping : Reaping dead start redis) (drained : Drained dead redis)
    (lockJobTypes : List String) :
    Reaping dead start (redis.redisLuaReapStaleLocks dead lockJobTypes) := by
  obtain ⟨lock, lockInfo, same, -⟩ := redis.redisLuaReapStaleLocks_eq dead lockJobTypes
  have entry := fun name => redis.get_redisLuaReapStaleLocks dead lockJobTypes name dead
  have ledger := redis.ledger_redisLuaReapStaleLocks dead lockJobTypes
  have kept : ∀ name,
      Pending dead (redis.redisLuaReapStaleLocks dead lockJobTypes) name →
      Pending dead redis name ∧ name ∉ lockJobTypes := by
    rintro name (nonempty | held)
    · rw [Store.list_redisLuaReapStaleLocks] at nonempty
      exact absurd (drained name) nonempty
    · rw [entry name] at held
      split at held
      · exact absurd rfl held
      · next other => exact ⟨.inr held, fun member => other ⟨rfl, member⟩⟩
  refine ⟨?_, fun key other => ?_, fun name => ?_, fun name => ?_, fun name now => ?_,
    fun name done had => ?_, fun name nothing => ?_, ?_, ?_, ?_, ?_⟩
  · rw [same]
    exact reaping.frame
  · rw [Store.list_redisLuaReapStaleLocks]
    exact reaping.lists key other
  · rw [Store.list_redisLuaReapStaleLocks]
    exact reaping.queues name
  · rw [← reaping.holders name]
    refine FinMap.eq_of_get fun holder => ?_
    by_cases own : holder = dead
    · rw [own, FinMap.get_erase_self, FinMap.get_erase_self]
    · rw [FinMap.get_erase_of_ne _ own, FinMap.get_erase_of_ne _ own,
        Store.get_redisLuaReapStaleLocks, if_neg fun both => own both.1]
  · obtain ⟨pending, other⟩ := kept name now
    rw [ledger name, if_neg other]
    exact reaping.balanced name pending
  · cases held : (redis.lockInfo name).get dead with
    | none =>
        rw [redis.lock_redisLuaReapStaleLocks_of_none dead lockJobTypes held]
        exact reaping.settled name (fun pending => pending.elim (· (drained name)) (· held)) had
    | some count =>
        have member : name ∈ lockJobTypes := by
          by_contra other
          refine done (.inr ?_)
          rw [entry name, if_neg fun both => other both.2, held]
          exact nofun
        rw [redis.lock_redisLuaReapStaleLocks_of_some dead member held]
        have balanced : (redis.lock name).getD 0 = (redis.lockInfo name).total :=
          (reaping.balanced name (.inr (by rw [held]; exact nofun))).2
        rw [others, ← reaping.holders name, FinMap.total_erase, FinMap.amount, held,
          Option.getD_some, balanced]
  · have unheld : (redis.lockInfo name).get dead = none := by
      by_contra held
      exact nothing (reaping.balanced name (.inr held)).1
    rw [redis.lock_redisLuaReapStaleLocks_of_none dead lockJobTypes unheld]
    exact reaping.untouched name nothing
  · rw [same]
    exact reaping.pools
  · rw [same]
    exact reaping.heartbeats
  · intro missing name
    rw [Store.list_redisLuaReapStaleLocks]
    exact drained name
  · rw [same]
    exact reaping.absent

end Reaping

/-- How far the clean-up has come is not undone. -/
structure Onward (dead : PoolID) (redis next : Store) : Prop where
  drained : Drained dead redis → Drained dead next
  heartbeat : redis.heartbeat dead = none → next.heartbeat dead = none
  pools : dead ∉ redis.workerPools → dead ∉ next.workerPools

theorem Onward.refl (dead : PoolID) (redis : Store) : Onward dead redis redis := ⟨id, id, id⟩

theorem Entries.mono {found : List (PoolID × List String)}
    (entries : Entries dead names redis found) (onward : Onward dead redis next) :
    Entries dead names next found := by
  intro entry member
  obtain ⟨same, known | ⟨unknown, missing⟩⟩ := entries entry member
  · exact ⟨same, .inl known⟩
  · exact ⟨same, .inr ⟨unknown, onward.heartbeat missing⟩⟩

theorem Sound.mono {state : Reaper.State} (sound : Sound dead names curJobTypes redis state)
    (onward : Onward dead redis next) : Sound dead names curJobTypes next state := by
  cases state with
  | idle => trivial
  | scanning todo found => exact Entries.mono sound onward
  | reading pool todo found => exact ⟨sound.1, sound.2.mono onward⟩
  | requeueing pool jobTypes todo => exact ⟨sound.1, sound.2.1.mono onward, sound.2.2⟩
  | deleting pool jobTypes todo =>
      obtain ⟨same, entries, types, drained⟩ := sound
      exact ⟨same, entries.mono onward, types, onward.drained drained⟩
  | removing pool lockJobTypes todo =>
      obtain ⟨same, entries, types, missing⟩ := sound
      exact ⟨same, entries.mono onward, types, onward.heartbeat missing⟩
  | cleaning pool lockJobTypes todo =>
      obtain ⟨same, entries, types, missing, unlisted⟩ := sound
      exact ⟨same, entries.mono onward, types, onward.heartbeat missing, onward.pools unlisted⟩

theorem Entries.snoc {found : List (PoolID × List String)} {jobTypes : List String}
    (entries : Entries dead names redis found)
    (known : jobTypes = names ∨ jobTypes = [] ∧ redis.heartbeat dead = none) :
    Entries dead names redis (found ++ [(dead, jobTypes)]) := by
  intro entry member
  rcases List.mem_append.mp member with before | last
  · exact entries entry before
  · cases List.mem_singleton.mp last
    exact ⟨rfl, known⟩

/-- A reaper turns to the dead pool, or it ends its round. -/
theorem sound_proceed {todo : List (PoolID × List String)}
    (entries : Entries dead names redis todo) (named : names ≠ []) :
    Sound dead names curJobTypes redis (Reaper.proceed curJobTypes todo) := by
  cases todo with
  | nil => trivial
  | cons entry todo =>
      obtain ⟨pool, jobTypes⟩ := entry
      obtain ⟨same, known⟩ := entries _ List.mem_cons_self
      have rest : Entries dead names redis todo :=
        fun entry member => entries entry (List.mem_cons_of_mem _ member)
      rw [Reaper.proceed]
      split
      · next given => exact ⟨same, rest, known.resolve_right fun unknown => given unknown.1⟩
      · next nothing =>
          have missing : redis.heartbeat dead = none := by
            rcases known with known | ⟨-, missing⟩
            · exact absurd (known.symm.trans (not_not.mp nothing)) named
            · exact missing
          exact ⟨same, rest, .inr rfl, missing⟩

theorem Left.names_ne_nil (left : Left dead names start) : names ≠ [] := by
  obtain ⟨heartbeat, -, rfl⟩ := left.heartbeat
  simp [splitNames, List.splitOn_ne_nil]

/-- What a move does to the store, and what the reaper knows after it. -/
theorem Move.reaping (moved : Move dead curJobTypes redis before next after)
    (left : Left dead names start) (reaping : Reaping dead start redis)
    (sound : Sound dead names curJobTypes redis before) :
    Reaping dead start next ∧ Onward dead redis next ∧
      Sound dead names curJobTypes next after := by
  cases moved with
  | listed => exact ⟨reaping, .refl _ _, nofun⟩
  | passed => exact ⟨reaping, .refl _ _, sound⟩
  | expired missing => exact ⟨reaping, .refl _ _, Entries.snoc sound (.inr ⟨rfl, missing⟩)⟩
  | old => exact ⟨reaping, .refl _ _, rfl, sound⟩
  | gone => exact ⟨reaping, .refl _ _, sound.2⟩
  | read present =>
      refine ⟨reaping, .refl _ _, sound.2.snoc (.inl ?_)⟩
      obtain ⟨heartbeat, found, rfl⟩ := left.heartbeat
      rcases reaping.heartbeats with same | gone
      · rw [same, found] at present
        cases present
        rfl
      · rw [gone, Function.update_self] at present
        cases present
  | begun same =>
      refine ⟨reaping, .refl _ _, sound_proceed (fun entry member => ?_) left.names_ne_nil⟩
      exact sound entry (same.mem_iff.mp member)
  | @requeued _ _ name raw rest member split =>
      have onward : Onward dead redis
          ((redis.move (.inProgress dead name) (.jobs name) rest raw).releaseLock name dead) := by
        refine ⟨fun drained => ?_, id, id⟩
        have empty := split.symm.trans (drained name)
        cases (List.append_eq_nil_iff.mp empty).2
      exact ⟨reaping.requeued split, onward, sound.mono onward⟩
  | emptied empty =>
      obtain ⟨-, entries, rfl⟩ := sound
      refine ⟨reaping, .refl _ _, rfl, entries, rfl, fun name => ?_⟩
      by_contra nonempty
      have pending : Pending dead redis name := .inl nonempty
      exact nonempty (empty name (left.names name (reaping.balanced name pending).1))
  | deleted =>
      obtain ⟨-, entries, rfl, drained⟩ := sound
      have onward : Onward dead redis (Reaper.delHeartbeat redis dead) :=
        ⟨id, fun _ => Function.update_self _ _ _, id⟩
      exact ⟨reaping.deleted drained, onward, rfl, entries.mono onward, .inl rfl,
        Function.update_self _ _ _⟩
  | removed =>
      obtain ⟨-, entries, types, missing⟩ := sound
      have onward : Onward dead redis (Reaper.sremPool redis dead) :=
        ⟨id, id, fun _ => Finset.notMem_erase _ _⟩
      exact ⟨reaping.removed missing, onward, rfl, entries.mono onward, types, missing,
        Finset.notMem_erase _ _⟩
  | @cleaned lockJobTypes =>
      obtain ⟨-, entries, -, missing, -⟩ := sound
      have onward : Onward dead redis (redis.redisLuaReapStaleLocks dead lockJobTypes) :=
        Store.redisLuaReapStaleLocks_rec _ _ (fun _ _ => ⟨id, id, id⟩) _
      exact ⟨reaping.cleaned (reaping.drained missing) _, onward,
        sound_proceed (entries.mono onward) left.names_ne_nil⟩

end Invariant

end Reapers
