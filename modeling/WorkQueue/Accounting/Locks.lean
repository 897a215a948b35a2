import WorkQueue.System.Effect
import WorkQueue.Accounting.Names

/-! # Locks count the jobs in progress

The ledger of a job name accounts for the jobs in progress when the lock is the sum of
the entries of all pools and the entry of a pool is the length of its list. Every step
keeps the accounts, provided that a completed job is still on its list and that the
locks of a pool are cleaned up only when its lists are empty (`Matched`,
`Accounted.step`).
-/

namespace Store

/-- Every ledger accounts for the jobs in progress of its name. -/
def Accounted (redis : Store) : Prop :=
  ∀ name, (redis.ledger name).Accounts fun pool => (redis.list (.inProgress pool name)).length

namespace Accounted

variable {before after : Store} {name : String} {id : PoolID}

theorem congr (accounted : before.Accounted) (same : before.SameHoldings after) :
    after.Accounted := by
  intro other
  rw [same.ledgers other]
  exact (accounted other).congr fun pool => by rw [same.progress]

section Update

variable (accounted : before.Accounted)
  (ledgers : ∀ other, other ≠ name → after.ledger other = before.ledger other)
  (lists : ∀ pool other, (ListKey.inProgress pool other) ≠ .inProgress id name →
    after.list (.inProgress pool other) = before.list (.inProgress pool other))

include accounted ledgers lists

/-- One list of jobs in progress is changed together with its ledger. -/
theorem update
    (matched : (after.ledger name).Accounts (Function.update
      (fun pool => (before.list (.inProgress pool name)).length) id
      (after.list (.inProgress id name)).length)) : after.Accounted := by
  intro other
  by_cases same : other = name
  · subst same
    refine matched.congr fun pool => ?_
    by_cases own : pool = id
    · subst own
      rw [Function.update_self]
    · rw [Function.update_of_ne own, lists pool other (by simp [own])]
  · rw [ledgers other same]
    exact (accounted other).congr fun pool => by rw [lists pool other (by simp [same])]

/-- One more job in progress matches one more lock. -/
theorem acquire (ledger : after.ledger name = (before.ledger name).acquire id)
    (longer : (after.list (.inProgress id name)).length =
      (before.list (.inProgress id name)).length + 1) : after.Accounted := by
  apply accounted.update ledgers lists
  rw [ledger, longer]
  exact (accounted name).acquire id

/-- One less job in progress matches one less lock. -/
theorem release (ledger : after.ledger name = (before.ledger name).release id)
    (shorter : (before.list (.inProgress id name)).length =
      (after.list (.inProgress id name)).length + 1) : after.Accounted := by
  apply accounted.update ledgers lists
  rw [ledger]
  exact (accounted name).release id shorter

end Update

/-- The locks of a pool without jobs in progress can be cleaned up. -/
theorem reapStaleLocks (accounted : before.Accounted) {names : List String}
    (empty : ∀ name ∈ names, before.list (.inProgress id name) = []) :
    (before.redisLuaReapStaleLocks id names).Accounted := by
  intro name
  rw [ledger_redisLuaReapStaleLocks, list_redisLuaReapStaleLocks]
  split
  · next member =>
      refine (accounted name).forget id ?_
      rw [empty name member]
      rfl
  · exact accounted name

end Accounted

section Composite

variable {redis : Store} {name : String} {id : PoolID} {rest : List RawJSON} {raw : RawJSON}

/-- A fetch keeps the accounts. -/
theorem Accounted.taken (accounted : redis.Accounted) :
    ((redis.acquireLock name id).move (.jobs name) (.inProgress id name) rest raw).Accounted := by
  refine accounted.acquire
    (fun other different => redis.ledger_acquireLock_of_ne name id different)
    (fun pool other different => ?_) (redis.ledger_acquireLock name id) ?_
  · rw [list_move_of_ne (by simp) different, list_acquireLock]
  · rw [list_move_target, list_acquireLock, List.length_cons]

/-- Requeueing a job in progress keeps the accounts. -/
theorem Accounted.returned (accounted : redis.Accounted)
    (split : redis.list (.inProgress id name) = rest ++ [raw]) :
    ((redis.move (.inProgress id name) (.jobs name) rest raw).releaseLock name id).Accounted := by
  refine accounted.release (fun other different => ledger_releaseLock_of_ne _ name id different)
    (fun pool other different => ?_) (ledger_releaseLock _ name id) ?_
  · rw [list_releaseLock, list_move_of_ne different (by simp)]
  · rw [list_releaseLock, list_move_source (by simp), split, List.length_append,
      List.length_singleton]

/-- Completing a job that is on its list keeps the accounts. -/
theorem Accounted.finished (accounted : redis.Accounted) (fate : TerminateOp)
    (present : raw ∈ redis.list (.inProgress id name)) :
    (Worker.removeJobFromInProgress redis id (.inProgress id name) name fate raw).Accounted := by
  refine accounted.release
    (fun other different => (Worker.ledger_removeJobFromInProgress ..).trans
      (redis.ledger_releaseLock_of_ne name id different)) (fun pool other different => ?_)
    ((Worker.ledger_removeJobFromInProgress ..).trans (redis.ledger_releaseLock name id)) ?_
  · rw [Worker.list_removeJobFromInProgress, list_lrem_of_ne different]
  · rw [Worker.list_removeJobFromInProgress, list_lrem_self, List.length_erase_of_mem present]
    exact (Nat.sub_add_cancel (List.length_pos_of_mem present)).symm

end Composite

end Store

namespace System

variable {deployment : Deployment} {state next : State} {event : Event}

/-- The list and the payload that an executed completion removes. -/
def completed? (state : State) : Event → Option (ListKey × RawJSON)
  | .pool id (.worker index (.finish _ reply)) =>
      match (state.pools id).workers[index]? with
      | some (.running job raw) => if reply = .failed then none else some (job.inProgQueue, raw)
      | _ => none
  | _ => none

/-- The pool and the names whose locks an executed clean-up forgets. -/
def cleanedPool? (deployment : Deployment) (state : State) :
    Event → Option (PoolID × List String)
  | .pool id (.cleanStaleLockInfo true) => some (id, (deployment.pool id).names)
  | .pool id (.reaper (.clean _)) =>
      match (state.pools id).reaper with
      | .cleaning dead lockJobTypes _ => some (dead, lockJobTypes)
      | _ => none
  | _ => none

theorem eq_of_completed? {entry : ListKey × RawJSON}
    (completed : completed? state event = some entry) :
    ∃ id index finish reply job, event = .pool id (.worker index (.finish finish reply)) ∧
      (state.pools id).workers[index]? = some (.running job entry.2) ∧ reply ≠ .failed ∧
      entry.1 = job.inProgQueue := by
  unfold completed? at completed
  split at completed
  · next id index finish reply =>
      split at completed
      · next job raw running =>
          split at completed
          · cases completed
          · next executed =>
              cases completed
              exact ⟨id, index, finish, reply, job, rfl, running, executed, rfl⟩
      · cases completed
  · cases completed

theorem eq_of_cleanedPool? {cleaned : PoolID × List String}
    (found : cleanedPool? deployment state event = some cleaned) :
    event = .pool cleaned.1 (.cleanStaleLockInfo true) ∨ ∃ id todo reply,
      event = .pool id (.reaper (.clean reply)) ∧
        (state.pools id).reaper = .cleaning cleaned.1 cleaned.2 todo := by
  unfold cleanedPool? at found
  split at found
  · cases found
    exact .inl rfl
  · next id reply =>
      split at found
      · next dead lockJobTypes todo current =>
          cases found
          exact .inr ⟨id, todo, reply, rfl, current⟩
      · cases found
  · cases found

/-- The pool whose worker fetches. -/
def Event.fetcher? : Event → Option PoolID
  | .pool id (.worker _ (.fetch _ _)) => some id
  | _ => none

/-- What a step can do to the ledger of a name. -/
theorem step_ledger (stepped : step deployment state event = some next) (name : String) :
    next.redis.ledger name = state.redis.ledger name ∨
      (∃ id, event.fetcher? = some id ∧ state.redis.canRun name ∧
        next.redis.ledger name = (state.redis.ledger name).acquire id) ∨
      (∃ id, next.redis.ledger name = (state.redis.ledger name).release id) ∨
      ∃ pool names, (pool, names) ∈ cleanedPool? deployment state event ∧ name ∈ names ∧
        next.redis.ledger name = (state.redis.ledger name).forget pool := by
  have released : ∀ redis : Store, redis.ledger name = state.redis.ledger name → ∀ queue pool,
      (redis.releaseLock queue pool).ledger name = state.redis.ledger name ∨
        ∃ id, (redis.releaseLock queue pool).ledger name =
          (state.redis.ledger name).release id := by
    intro redis same queue pool
    by_cases own : name = queue
    · subst own
      exact .inr ⟨pool, by rw [redis.ledger_releaseLock, same]⟩
    · exact .inl (by rw [redis.ledger_releaseLock_of_ne queue pool own, same])
  cases step_touch stepped with
  | quiet same => exact .inl (same.ledgers name)
  | @taken id index order reply queue raw rest fetch alive registered split runnable after =>
      rw [after]
      by_cases own : name = queue
      · subst own
        exact .inr (.inl ⟨id, by rw [fetch]; rfl, runnable, state.redis.ledger_acquireLock name id⟩)
      · exact .inl (state.redis.ledger_acquireLock_of_ne queue id own)
  | finished completion executed alive running after =>
      rw [after]
      simp only [Worker.ledger_removeJobFromInProgress]
      exact (released _ rfl _ _).imp_right .inl |>.imp_right .inr
  | returned returned phase registered split after | reaped reaped current listed split after =>
      rw [after]
      exact (released _ rfl _ _).imp_right .inl |>.imp_right .inr
  | @cleaned id cleaning phase after =>
      subst cleaning
      rw [after, Store.ledger_redisLuaReapStaleLocks]
      split
      · next member => exact .inr (.inr (.inr ⟨id, _, rfl, member, rfl⟩))
      · exact .inl rfl
  | @reapCleaned reaper id lockJobTypes todo reply cleaning current after =>
      subst cleaning
      rw [after, Store.ledger_redisLuaReapStaleLocks]
      split
      · next member =>
          refine .inr (.inr (.inr ⟨id, lockJobTypes, ?_, member, rfl⟩))
          simp only [cleanedPool?, current, Option.mem_def]
      · exact .inl rfl

/-- A completed job is still on its list, and the locks of a pool are cleaned up only
when its lists of those names are empty. -/
def Matched (deployment : Deployment) (state : State) (event : Event) : Prop :=
  (∀ entry ∈ completed? state event, entry.2 ∈ state.redis.list entry.1) ∧
    ∀ cleaned ∈ cleanedPool? deployment state event,
      ∀ name ∈ cleaned.2, state.redis.list (.inProgress cleaned.1 name) = []

instance (state : State) (event : Event) : Decidable (Matched deployment state event) :=
  inferInstanceAs (Decidable (_ ∧ _))

/-- A matched step keeps the accounts. -/
theorem Accounted.step (named : (namesContract deployment).Everywhere state)
    (accounted : state.redis.Accounted) (own : OwnPayloads state event)
    (matched : Matched deployment state event)
    (stepped : step deployment state event = some next) : next.redis.Accounted := by
  cases step_touch stepped with
  | quiet same => exact accounted.congr same
  | taken _ _ _ _ _ after =>
      rw [after]
      exact accounted.taken
  | @finished id index finish reply job raw completion executed alive running after =>
      subst completion
      obtain ⟨name, _, progress, jobName, _⟩ :=
        named.workers id _ (List.mem_of_getElem? running)
      have kept := own.2 _ rfl job (runningJob?_of_running running)
      rw [after, (Worker.processJob_identity kept).1, jobName, progress]
      have entry : (job.inProgQueue, raw) ∈ completed? state
          (.pool id (.worker index (.finish finish reply))) := by
        simp only [completed?, running, executed, ↓reduceIte, Option.mem_def]
      exact accounted.finished _ (progress ▸ matched.1 _ entry)
  | returned _ _ _ split after | reaped _ _ _ split after =>
      rw [after]
      exact accounted.returned split
  | cleaned cleaning _ after =>
      subst cleaning
      rw [after]
      exact accounted.reapStaleLocks (matched.2 _ rfl)
  | reapCleaned cleaning current after =>
      subst cleaning
      rw [after]
      refine accounted.reapStaleLocks (matched.2 (_, _) ?_)
      simp only [cleanedPool?, current, Option.mem_def]

end System
