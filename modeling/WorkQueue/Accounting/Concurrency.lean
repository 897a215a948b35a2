import WorkQueue.Accounting.Retirement
import WorkQueue.System.Database

/-! # The cap on concurrent jobs

A fetch takes a job only while the lock of its name is below the cap, so the cap bounds
the jobs in progress as long as the lock does. It does in orderly runs, where the locks
account for the lists (`lock_accounting`), and in all runs whose steps are matched
(`progress_le_lock`).

A reaper that takes a slow pool for dead breaks the match: it returns the lock of a job
that a worker is still running, and the worker returns it again when it completes the
job, without looking whether the job was still on its list.
-/

namespace Store

variable {redis : Store} {name : String}

/-- A job may start only while the lock is below the cap. -/
theorem count_lt_of_canRun {cap : ℕ} (limited : redis.maxConcurrency name = some cap)
    (positive : 0 < cap) (runnable : redis.canRun name) : (redis.ledger name).count < cap := by
  simp only [canRun, limited, Bool.or_eq_true, decide_eq_true_eq, positive.ne', false_or]
    at runnable
  unfold ledger
  cases active : redis.lock name with
  | none => simpa using positive
  | some count =>
      rw [active] at runnable
      simpa using runnable

/-- A lock that counts nothing holds no job back. -/
theorem canRun_of_count_eq_zero (zero : (redis.lock name).getD 0 = 0) : redis.canRun name := by
  unfold canRun
  cases redis.maxConcurrency name with
  | none => rfl
  | some cap =>
      cases active : redis.lock name with
      | none => simp
      | some count =>
          rw [active, Option.getD_some] at zero
          simp only [Bool.or_eq_true, decide_eq_true_eq]
          omega

/-- The jobs in progress of a name in some pools. -/
def inProgress (redis : Store) (pools : Finset PoolID) (name : String) : ℕ :=
  ∑ pool ∈ pools, (redis.list (.inProgress pool name)).length

theorem Accounted.inProgress_le (accounted : redis.Accounted) (pools : Finset PoolID)
    (name : String) : (redis.inProgress pools name : Int) ≤ (redis.lock name).getD 0 :=
  (accounted name).sum_le_count pools

end Store

namespace System

variable {deployment : Deployment} {state next : State} {event : Event}

/-- The accounts in every state reached by matched steps. -/
theorem Accounted.reachable {scope : State → Event → Prop}
    (own : ∀ state event, scope state event → OwnPayloads state event)
    (matched : ∀ state event next, (system deployment).Reachable scope state → scope state event →
      System.step deployment state event = some next → Matched deployment state event)
    (reached : (system deployment).Reachable scope state) : state.redis.Accounted := by
  refine reached.invariant (fun state : State => state.redis.Accounted) ?_ ?_
  · intro start begun name
    refine ⟨?_, ?_⟩
    · simp only [Ledger.Balanced, Store.ledger, begun.lock, begun.lockInfo, Option.getD_none,
        FinMap.total_empty]
    · intro pool
      simp only [Store.ledger, begun.lockInfo, begun.list, FinMap.amount_empty, List.length_nil,
        Nat.cast_zero]
  · intro source event target reachedSource accounted allowed stepped
    have named := (namesContract deployment).reachable (reachedSource.mono own)
    exact Accounted.step named accounted (own _ _ allowed)
      (matched source event target reachedSource allowed stepped) stepped

/-- The accounts in every state reached by an orderly run. -/
theorem Orderly.accounted (reached : (system deployment).Reachable (Orderly deployment) state) :
    state.redis.Accounted := by
  refine Accounted.reachable (fun _ _ orderly => orderly.1) ?_ reached
  intro source event target reachedSource orderly stepped
  exact Orderly.matched reachedSource stepped

/-- A lock that accounts for the jobs in progress rises only by a fetch below the cap. -/
theorem count_step_le {name : String} {cap : ℕ} (accounted : state.redis.Accounted)
    (matched : Matched deployment state event)
    (limited : event.fetcher?.isSome → state.redis.maxConcurrency name = some cap)
    (positive : 0 < cap)
    (below : (state.redis.ledger name).count ≤ cap)
    (stepped : step deployment state event = some next) :
    (next.redis.ledger name).count ≤ cap := by
  rcases step_ledger stepped name with same | ⟨id, fetch, runnable, acquired⟩ | ⟨id, released⟩ |
      ⟨pool, names, cleaned, member, forgotten⟩
  · rw [same]
    exact below
  · have free := Store.count_lt_of_canRun (limited (by rw [fetch]; rfl)) positive runnable
    rw [acquired]
    simp only [Ledger.acquire]
    omega
  · rw [released]
    simp only [Ledger.release]
    omega
  · have gone : (state.redis.list (.inProgress pool name)).length = 0 := by
      rw [matched.2 _ cleaned name member, List.length_nil]
    rw [forgotten, (accounted name).count_forget pool gone]
    exact below

/-- In every orderly run whose keys are kept apart, the lock of a name is the sum of what the
pools hold of it, which is what each of them has in progress. If a cap is set whenever a job is
fetched, no more jobs are in progress. -/
theorem lock_accounting (reached : (system deployment).Reachable (fun state event =>
      Orderly deployment state event ∧ PlainKeys deployment state event) state) (name : String) :
    (state.redis.lock name).getD 0 = (state.redis.lockInfo name).total ∧
      (∀ pool, (state.redis.lockInfo name).amount pool =
        (state.redis.list (.inProgress pool name)).length) ∧
      ∀ cap, 0 < cap →
        (system deployment).Reachable (fun state event =>
          (Orderly deployment state event ∧ PlainKeys deployment state event) ∧
            (event.fetcher?.isSome → state.redis.maxConcurrency name = some cap)) state →
        ∀ pools, state.redis.inProgress pools name ≤ cap := by
  have accounted := Orderly.accounted (reached.mono fun _ _ both => both.1)
  refine ⟨(accounted name).balanced, (accounted name).counted, ?_⟩
  intro cap positive limited pools
  have below : (state.redis.ledger name).count ≤ cap := by
    refine limited.invariant (fun state : State => (state.redis.ledger name).count ≤ cap) ?_ ?_
    · intro start begun
      simp only [Store.ledger, begun.lock, Option.getD_none, Nat.cast_nonneg]
    · intro source event target reachedSource below allowed stepped
      have orderly : (system deployment).Reachable (Orderly deployment) source :=
        reachedSource.mono fun _ _ both => both.1.1
      exact count_step_le (Orderly.accounted orderly) (Orderly.matched orderly stepped) allowed.2
        positive below stepped
  have within := accounted.inProgress_le pools name
  exact_mod_cast within.trans below

/-- Two pools start, the first one fetches a job. -/
def fetchedOnce : List Event :=
  boot ["send"] "A" ++ boot ["send"] "B" ++
    [.enqueuer (.enqueue "send" "1" 0 none), .pool "A" (.worker 0 (.fetch ["send"] .ok))]

/-- The reaper of the second pool finds the heartbeat of the first one old and reaps it. -/
def reapedFirst : List Event :=
  [.members ["A", "B"] .ok, .heartbeatAt 10 .ok, .jobNames .ok, .heartbeatAt 9 .ok,
    .reap [("A", ["send"])], .requeue .ok, .requeue .ok, .delete .ok, .remove .ok,
    .clean .ok].map fun event => .pool "B" (.reaper event)

/-- The first pool crashes and is reaped, and the second one fetches the job again. -/
def crashedAndReaped : List Event :=
  fetchedOnce ++ [.pool "A" .crash] ++ reapedFirst ++
    [.pool "B" (.worker 0 (.fetch ["send"] .ok))]

theorem lock_accounting_reaped :
    ∃ state, (system single).Reachable (fun state event =>
        (Orderly single state event ∧ PlainKeys single state event) ∧
        (event.fetcher?.isSome → state.redis.maxConcurrency "send" = some 1)) state ∧
      state.redis.list (.inProgress "B" "send") ≠ [] ∧
      (state.redis.lock "send").getD 0 = (state.redis.lockInfo "send").total ∧
      (∀ pool, (state.redis.lockInfo "send").amount pool =
        (state.redis.list (.inProgress pool "send")).length) ∧
      state.redis.inProgress {"A", "B"} "send" ≤ 1 := by
  have run : ∃ state, (system single).Reachable (fun state event =>
        (Orderly single state event ∧ PlainKeys single state event) ∧
        (event.fetcher?.isSome → state.redis.maxConcurrency "send" = some 1)) state ∧
      state.redis.list (.inProgress "B" "send") ≠ [] :=
    TransitionSystem.Reachable.exists_of_run crashedAndReaped initial_emptyState
      (by decide +kernel)
  obtain ⟨state, limited, fetched⟩ := run
  obtain ⟨balanced, counted, bounded⟩ :=
    lock_accounting (limited.mono fun _ _ both => both.1) "send"
  exact ⟨state, limited, fetched, balanced, counted, bounded 1 Nat.one_pos limited _⟩

/-- Pools that register a job name whose queue has the text of another name's lock
information. -/
def clashing : Deployment where
  ns := "work"
  pool _ :=
    { jobTypes := [{ name := "send", priority := 1, maxFails := 4 },
        { name := "send:lock_info", priority := 1, maxFails := 4 }]
      distinct := by decide
      concurrency := 1, workerIDs := ["w"], host := "host", pid := 1 }

/-- A job of each name is enqueued and a worker looks at the first one: the script takes the
lock and aborts, since the lock information is a list. -/
theorem lock_taken_by_aborted_script :
    ∃ pair, (alone clashing).Reachable (TransitionSystem.ownScope fun _ => Orderly clashing) pair ∧
      Redis.Slot.asNumber (pair.2 (Key.text "work" (.lock "send"))) = some (some 1) ∧
      Redis.Slot.asCounters (pair.2 (Key.text "work" (.lockInfo "send"))) = none ∧
      Redis.Slot.asList (pair.2 (Key.text "work" (.list (.inProgress "A" "send")))) = some [] :=
  TransitionSystem.Reachable.exists_of_run
    ((boot ["send", "send:lock_info"] "A" ++
      ([.enqueuer (.enqueue "send:lock_info" "1" 0 none), .enqueuer (.enqueue "send" "2" 0 none),
        .pool "A" (.worker 0 (.fetch ["send", "send:lock_info"] .lost))] : List Event)).map
          (Prod.mk ()))
    (initial_alone clashing) (by decide +kernel)

/-- In every run whose steps are matched, the lock of a name is at least what is in
progress of it, and a fetch never lets more jobs of the name into progress than its cap. -/
theorem progress_le_lock (reached : (system deployment).Reachable (fun state event =>
      OwnPayloads state event ∧ Matched deployment state event) state) (name : String) :
    0 ≤ (state.redis.lock name).getD 0 ∧
      (∀ pools, (state.redis.inProgress pools name : Int) ≤ (state.redis.lock name).getD 0) ∧
      ∀ id names cap, 0 < cap → state.redis.maxConcurrency name = some cap →
        (state.redis.redisLuaFetchJob id names).1.list (.inProgress id name) ≠
          state.redis.list (.inProgress id name) →
        ∀ pools, (state.redis.redisLuaFetchJob id names).1.inProgress pools name ≤ cap := by
  have accounted : state.redis.Accounted :=
    Accounted.reachable (fun _ _ allowed => allowed.1) (fun _ _ _ _ allowed _ => allowed.2) reached
  refine ⟨(accounted name).count_nonneg, fun pools => accounted.inProgress_le pools name, ?_⟩
  intro id names cap positive limited taken pools
  rcases state.redis.redisLuaFetchJob_cases id names with
    nothing | ⟨queue, raw, rest, _, _, _, runnable, fetched⟩
  · rw [nothing] at taken
    exact (taken rfl).elim
  · rw [fetched] at taken ⊢
    dsimp only at taken ⊢
    have same : name = queue := by
      by_contra different
      refine taken ?_
      rw [Store.list_move_of_ne (by simp) (by simp [different]), Store.list_acquireLock]
    subst same
    have after : ((state.redis.acquireLock name id).move (.jobs name) (.inProgress id name) rest
        raw).Accounted := accounted.taken
    have within := after.inProgress_le pools name
    have below := Store.count_lt_of_canRun limited positive runnable
    change _ ≤ ((state.redis.acquireLock name id).ledger name).count at within
    rw [Store.ledger_acquireLock] at within
    simp only [Ledger.acquire] at within
    omega

theorem progress_le_lock_reaped :
    ∃ state, (system single).Reachable (fun state event =>
        OwnPayloads state event ∧ Matched single state event) state ∧
      0 ≤ (state.redis.lock "send").getD 0 ∧
      (state.redis.inProgress {"A", "B"} "send" : Int) ≤ (state.redis.lock "send").getD 0 ∧
      (state.redis.redisLuaFetchJob "B" ["send"]).1.inProgress {"A", "B"} "send" ≤ 1 := by
  have run : ∃ state, (system single).Reachable (fun state event =>
        OwnPayloads state event ∧ Matched single state event) state ∧
      state.redis.maxConcurrency "send" = some 1 ∧
      (state.redis.redisLuaFetchJob "B" ["send"]).1.list (.inProgress "B" "send") ≠
        state.redis.list (.inProgress "B" "send") :=
    TransitionSystem.Reachable.exists_of_run
      (fetchedOnce ++ ([.pool "A" .crash] : List Event) ++ reapedFirst)
      initial_emptyState (by decide)
  obtain ⟨state, reached, limited, taken⟩ := run
  obtain ⟨nonnegative, bounded, capped⟩ := progress_le_lock reached "send"
  exact ⟨state, reached, nonnegative, bounded _,
    capped "B" ["send"] 1 Nat.one_pos limited taken _⟩

/-- A job as it was enqueued, completed without an error. -/
def completed (id : String) (jobName : String) : Finish where
  after := Enqueuer.plainJob jobName id 0 none
  marshals := true
  error := none
  failedAt := 0
  now := 0
  backoff := 0

/-- The first pool is reaped while it still runs its job, the second one fetches the job
again, and the first one completes it and fetches another one. -/
def reapedWhileRunning : List Event :=
  fetchedOnce ++ reapedFirst ++
    [.pool "B" (.worker 0 (.fetch ["send"] .ok)),
      .pool "A" (.worker 0 (.finish (completed "1" "send") .ok)),
      .enqueuer (.enqueue "send" "2" 0 none), .pool "A" (.worker 0 (.fetch ["send"] .ok))]

theorem progress_gt_lock_of_reaped_while_running :
    ∃ state, (system single).Reachable OwnPayloads state ∧
      state.redis.maxConcurrency "send" = some 1 ∧ state.redis.lock "send" = some 1 ∧
      state.redis.inProgress {"A", "B"} "send" = 2 :=
  TransitionSystem.Reachable.exists_of_run reapedWhileRunning initial_emptyState (by decide)

end System
