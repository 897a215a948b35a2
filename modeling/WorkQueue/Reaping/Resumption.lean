import WorkQueue.Reaping.Agreement

/-! # Completing an interrupted round

A reaper may stop after any command. A later reaper finds the pool again as long as it is
listed, and it knows all job names of the pool from the heartbeat or because they are its own.
The interrupted reaper removes the pool from the list before it cleans up the locks, so that
between these two commands there is nothing left from which a later reaper could find the
entries of the pool (`Reapers.resumed_iff`).
-/

namespace Reapers

section Single

variable {dead : PoolID} {names cur : List String} {start redis next : Store}
  {before after : Reaper.State}

/-- A reaper turns to the dead pool at most once in a round. -/
def Once (dead : PoolID) : Reaper.State → Prop
  | .idle => True
  | .scanning todo found => todo.count dead + found.length ≤ 1
  | .reading _ todo found => todo.count dead + found.length = 0
  | .requeueing _ _ todo | .deleting _ _ todo | .removing _ _ todo | .cleaning _ _ todo =>
      todo = []

theorem once_proceed {order : List (PoolID × List String)} (short : order.length ≤ 1) :
    Once dead (Reaper.proceed cur order) := by
  cases order with
  | nil => trivial
  | cons entry rest =>
      obtain rfl : rest = [] := by simpa using short
      rw [Reaper.proceed]
      split <;> rfl

theorem Move.once (moved : Move dead cur redis before next after) (once : Once dead before) :
    Once dead after := by
  cases moved with
  | listed _ distinct =>
      have most := List.nodup_iff_count_le_one.mp distinct dead
      simpa [Once] using most
  | passed other =>
      simp only [Once, List.count_cons_of_ne other] at once ⊢
      exact once
  | expired =>
      simp only [Once, List.count_cons_self, List.length_append, List.length_singleton] at once ⊢
      omega
  | old =>
      simp only [Once, List.count_cons_self] at once ⊢
      omega
  | gone =>
      simp only [Once] at once ⊢
      omega
  | read =>
      simp only [Once, List.length_append, List.length_singleton] at once ⊢
      omega
  | begun same =>
      simp only [Once, List.count_nil, zero_add] at once
      exact once_proceed (same.length_eq ▸ once)
  | requeued | emptied | deleted | removed => exact once
  | cleaned =>
      obtain rfl := once
      trivial

/-- A reaper that does not see the pool. -/
def Away (dead : PoolID) : Reaper.State → Prop
  | .idle => True
  | .scanning todo found => dead ∉ todo ∧ found = []
  | _ => False

/-- A pool that is not listed is not seen. -/
theorem Away.move (away : Away dead before) (unlisted : dead ∉ redis.workerPools)
    (moved : Move dead cur redis before next after) : Away dead after ∧ next = redis := by
  cases moved with
  | listed complete =>
      refine ⟨⟨fun member => unlisted ?_, rfl⟩, rfl⟩
      rw [← complete]
      exact List.mem_toFinset.mpr member
  | passed => exact ⟨⟨fun member => away.1 (List.mem_cons_of_mem _ member), away.2⟩, rfl⟩
  | expired | old => exact absurd List.mem_cons_self away.1
  | begun same =>
      obtain rfl := away.2
      obtain rfl := same.eq_nil
      exact ⟨trivial, rfl⟩
  | _ => exact away.elim

/-- Where the pool had something, it still has. -/
def Kept (dead : PoolID) (start redis : Store) : Prop :=
  ∀ name, Pending dead start name → Pending dead redis name

/-- How far a single reaper has come that began with the heartbeat. -/
inductive Stage (dead : PoolID) (names : List String) (start redis : Store) :
    Reaper.State → Prop
  | present {state : Reaper.State} : dead ∈ redis.workerPools → redis.heartbeat dead ≠ none →
      Kept dead start redis → Stage dead names start redis state
  | deleted {todo : List (PoolID × List String)} : dead ∈ redis.workerPools →
      Kept dead start redis → Stage dead names start redis (.removing dead names todo)
  | removed {todo : List (PoolID × List String)} : Kept dead start redis →
      Stage dead names start redis (.cleaning dead names todo)
  | finished {state : Reaper.State} : dead ∉ redis.workerPools → Forgotten dead redis →
      Away dead state → Stage dead names start redis state

theorem Stage.move (stage : Stage dead names start redis before) (left : Left dead names start)
    (reaping : Reaping dead start redis) (sound : Sound dead names cur redis before)
    (once : Once dead before) (moved : Move dead cur redis before next after) :
    Stage dead names start next after := by
  cases stage with
  | present listed present kept =>
      cases moved with
      | expired missing | gone missing => exact absurd missing present
      | requeued _ split =>
          exact .present listed present fun name had => (pending_requeued split).mpr (kept name had)
      | deleted =>
          obtain ⟨-, -, rfl, -⟩ := sound
          exact .deleted listed kept
      | removed => exact absurd sound.2.2.2 present
      | cleaned => exact absurd sound.2.2.2.1 present
      | _ => exact .present listed present kept
  | deleted listed kept =>
      obtain ⟨rfl, rfl⟩ := moved.of_removing
      exact .removed kept
  | removed kept =>
      obtain ⟨-, -, -, -, unlisted⟩ := sound
      obtain rfl := once
      cases moved
      refine .finished ?_ (reaping.forgotten left (List.Subset.refl _)) trivial
      obtain ⟨lock, lockInfo, same, -⟩ := redis.redisLuaReapStaleLocks_eq dead names
      rw [same]
      exact unlisted
  | finished unlisted forgotten away =>
      obtain ⟨away, rfl⟩ := away.move unlisted moved
      exact .finished unlisted forgotten away

theorem Move.of_reading {todo : List PoolID} {found : List (PoolID × List String)}
    (moved : Move dead cur redis before next after) (reading : after = .reading dead todo found) :
    next.heartbeat dead ≠ none := by
  cases moved with
  | old present => exact present
  | @begun _ order =>
      cases order with
      | nil => cases reading
      | cons entry rest =>
          rw [Reaper.proceed] at reading
          split at reading <;> cases reading
  | @cleaned _ rest =>
      cases rest with
      | nil => cases reading
      | cons entry rest =>
          rw [Reaper.proceed] at reading
          split at reading <;> cases reading
  | _ => cases reading

/-- The invariant of the interrupted reaper. -/
structure Sole (dead : PoolID) (names cur : List String) (start : Store)
    (reapers : Reapers Unit) : Prop
    extends Running dead names (fun _ => cur) start reapers where
  once : Once dead (reapers.state ())
  stage : Stage dead names start reapers.store (reapers.state ())

theorem sole_of_reachable (left : Left dead names start) {cut : Reapers Unit}
    (reached : (system (fun _ => cur) start).Reachable (OnlyDead dead) cut) :
    Sole dead names cur start cut := by
  refine reached.invariant (Sole dead names cur start) ?_ ?_
  · rintro _ rfl
    obtain ⟨heartbeat, present, -⟩ := left.heartbeat
    refine { reaping := left.reaping, sound := fun _ => trivial, once := trivial,
             stage := .present left.listed ?_ fun _ had => had }
    change start.heartbeat dead ≠ none
    rw [present]
    exact nofun
  · intro source event target _ sole only stepped
    obtain ⟨state, moved, states, -⟩ := sole.toRunning.move only stepped
    have here : target.state () = state := by rw [states, Function.update_self]
    refine { sole.toRunning.step left only stepped with
      once := here ▸ moved.once sole.once
      stage := here ▸ sole.stage.move left sole.reaping (sole.sound ()) sole.once moved }

/-- The invariant of a later reaper that knows the job names, unless the pool was removed with
its entries left behind. -/
structure Resumed (dead : PoolID) (names cur : List String) (start : Store)
    (reapers : Reapers Unit) : Prop
    extends Running dead names (fun _ => cur) start reapers, Duty dead names reapers where
  read : ∀ todo found, reapers.state () = .reading dead todo found →
    reapers.store.heartbeat dead ≠ none

theorem resumed_of_reachable (left : Left dead names start) (covers : names ⊆ cur)
    {store : Store} (reaping : Reaping dead start store)
    (handled : dead ∉ store.workerPools → Forgotten dead store) {final : Reapers Unit}
    (reached : (system (fun _ => cur) store).Reachable (OnlyDead dead) final) :
    Resumed dead names cur start final := by
  refine reached.invariant (Resumed dead names cur start) ?_ ?_
  · rintro _ rfl
    exact
      { reaping := reaping, sound := fun _ => trivial
        absent := fun unlisted => .inr ⟨unlisted, .inr (handled unlisted)⟩
        ahead := fun _ busy => absurd rfl busy
        ended := fun _ positive => absurd positive (lt_irrefl 0)
        read := nofun }
  · intro source event target _ resumed only stepped
    obtain ⟨state, moved, states, -⟩ := resumed.toRunning.move only stepped
    have here : target.state () = state := by rw [states, Function.update_self]
    refine { resumed.toRunning.step left only stepped,
      resumed.toDuty.step resumed.toRunning left only
        (fun missing => .inr ⟨covers, fun todo found reading => resumed.read todo found reading
          missing⟩) stepped with
      read := fun todo found reading => moved.of_reading (here ▸ reading) }

/-- A later reaper does not see a pool that was removed. -/
theorem store_of_unlisted (left : Left dead names start) {store : Store}
    (reaping : Reaping dead start store) (unlisted : dead ∉ store.workerPools)
    {final : Reapers Unit}
    (reached : (system (fun _ => cur) store).Reachable (OnlyDead dead) final) :
    final.store = store := by
  have unseen : final.store = store ∧ Away dead (final.state ()) ∧
      Running dead names (fun _ => cur) start final := by
    refine reached.invariant (fun reapers => reapers.store = store ∧ Away dead (reapers.state ()) ∧
      Running dead names (fun _ => cur) start reapers) ?_ ?_
    · rintro _ rfl
      exact ⟨rfl, trivial, reaping, fun _ => trivial⟩
    · rintro source event target _ ⟨same, away, running⟩ only stepped
      obtain ⟨state, moved, states, -⟩ := running.move only stepped
      obtain ⟨further, unchanged⟩ := away.move (same ▸ unlisted) moved
      refine ⟨unchanged.trans same, ?_, running.step left only stepped⟩
      rw [states, Function.update_self]
      exact further
  exact unseen.1

/-- Nothing is left of the pool, and the locks are what the other pools hold. -/
structure Cleared (dead : PoolID) (redis : Store) : Prop where
  lists : ∀ name, redis.list (.inProgress dead name) = []
  holders : ∀ name, (redis.lockInfo name).get dead = none
  locks : ∀ name, (redis.ledger name).count = others dead redis name

/-- A later reaper completes the clean-up, except for a lock that other pools hold less than
nothing of. -/
theorem Resumed.cleared_iff {final : Reapers Unit} (resumed : Resumed dead names cur start final)
    (left : Left dead names start) (complete : Complete final) :
    Cleared dead final.store ↔
      ∀ name, Pending dead start name → 0 ≤ others dead start name := by
  obtain ⟨unlisted, forgotten⟩ := resumed.toDuty.finished complete
  have same := resumed.reaping.sameUpToOrder unlisted forgotten
  have ledger : ∀ name, final.store.ledger name = (reaped dead start).ledger name := by
    intro name
    rw [same.frame]
    rfl
  have rest : ∀ name, others dead final.store name = others dead start name := by
    intro name
    rw [others, resumed.reaping.holders name, others]
  refine ⟨fun cleared name => ?_, fun nonnegative => ?_⟩
  · refine (count_reaped_iff left).mp ?_
    rw [← ledger name, cleared.locks name, rest name]
  · refine ⟨resumed.reaping.drained_of_unlisted unlisted, forgotten, fun name => ?_⟩
    rw [ledger name, rest name]
    exact (count_reaped_iff left).mpr (nonnegative name)

/-- A pool that was removed before its entries keeps them. -/
theorem cleared_iff_of_kept {store : Store} (left : Left dead names start)
    (reaping : Reaping dead start store) (unlisted : dead ∉ store.workerPools)
    (kept : Kept dead start store) :
    Cleared dead store ↔ ∀ name, ¬ Pending dead start name := by
  have drained := reaping.drained_of_unlisted unlisted
  refine ⟨fun cleared name pending => ?_, fun nothing => ?_⟩
  · exact (kept name pending).elim (· (drained name)) (· (cleared.holders name))
  · have forgotten : Forgotten dead store := by
      intro name
      by_contra held
      exact nothing name (reaping.balanced name (.inr held)).1
    refine ⟨drained, forgotten, fun name => ?_⟩
    have unheld : (start.lockInfo name).get dead = none := by
      by_contra held
      exact nothing name (.inr held)
    have balanced : (start.lock name).getD 0 = (start.lockInfo name).total := left.balanced name
    rw [others, reaping.holders name, FinMap.erase_of_none _ unheld, ← balanced, Store.ledger,
      reaping.untouched name (nothing name)]

/-- **An interrupted round can be completed later.** A reaper stops after some commands on a
dead pool with a heartbeat, and another one that knows the job names of the pool runs a complete
round. Where the pool had jobs in progress or entries, nothing is left of it if and only if the
first reaper did not stop after it removed the pool and before it cleaned up the locks, and
the other pools do not hold a negative number. -/
theorem resumed_iff (left : Left dead names start) {first : List String} {cut : Reapers Unit}
    (interrupted : (system (fun _ => first) start).Reachable (OnlyDead dead) cut)
    (covers : names ⊆ cur) {final : Reapers Unit}
    (resumed : (system (fun _ => cur) cut.store).Reachable (OnlyDead dead) final)
    (complete : Complete final) :
    Cleared dead final.store ↔ ∀ name, Pending dead start name →
      (∀ lockJobTypes todo, cut.state () ≠ .cleaning dead lockJobTypes todo) ∧
        0 ≤ others dead start name := by
  have sole := sole_of_reachable left interrupted
  have sound := sole.sound ()
  have stage := sole.stage
  have later : (∀ lockJobTypes todo, cut.state () ≠ .cleaning dead lockJobTypes todo) →
      (dead ∉ cut.store.workerPools → Forgotten dead cut.store) →
      (Cleared dead final.store ↔ ∀ name, Pending dead start name →
        (∀ lockJobTypes todo, cut.state () ≠ .cleaning dead lockJobTypes todo) ∧
          0 ≤ others dead start name) := by
    intro elsewhere handled
    rw [(resumed_of_reachable left covers sole.reaping handled resumed).cleared_iff left complete]
    exact forall₂_congr fun name _ => ⟨fun above => ⟨elsewhere, above⟩, And.right⟩
  generalize here : cut.state () = state at stage sound later
  cases stage with
  | present listed =>
      refine later (fun types todo cleaning => ?_) fun unlisted => absurd listed unlisted
      subst cleaning
      exact sound.2.2.2.2 listed
  | deleted listed => exact later nofun fun unlisted => absurd listed unlisted
  | removed kept =>
      obtain ⟨-, -, -, -, unlisted⟩ := sound
      rw [store_of_unlisted left sole.reaping unlisted resumed,
        cleared_iff_of_kept left sole.reaping unlisted kept]
      exact forall_congr' fun name => ⟨fun nothing pending => absurd pending nothing,
        fun both pending => (both pending).1 _ _ rfl⟩
  | finished unlisted forgotten away =>
      refine later (fun types todo cleaning => ?_) fun _ => forgotten
      subst cleaning
      exact away

end Single

/-- A reaper goes through its round. -/
def round : List (Unit × Reaper.Event) :=
  [.members ["D", "B"] .ok, .heartbeatAt 20 .ok, .jobNames .ok, .heartbeatAt 20 .ok,
    .reap [("D", ["send"])], .requeue .ok, .delete .ok, .remove .ok, .clean .ok].map ((), ·)

/-- A reaper finds the pool without a heartbeat. -/
def roundWithoutHeartbeat : List (Unit × Reaper.Event) :=
  [.members ["D", "B"] .ok, .heartbeatAt 20 .ok, .heartbeatAt 20 .ok, .reap [("D", [])],
    .remove .ok, .clean .ok].map ((), ·)

/-- A reaper does not find the pool. -/
def roundWithoutPool : List (Unit × Reaper.Event) :=
  [.members ["B"] .ok, .heartbeatAt 20 .ok, .reap []].map ((), ·)

/-- A reaper is interrupted, and another one goes through its round. -/
theorem exists_resumed {start : Store} {holds : Reapers Unit → Reapers Unit → Prop}
    [∀ cut final, Decidable (holds cut final)] (events later : List (Unit × Reaper.Event))
    (executed : (((system (fun _ => ["send"]) start).run (OnlyDead "D") (Reapers.start start)
      events).any fun cut => ((system (fun _ => ["send"]) cut.store).run (OnlyDead "D")
        (Reapers.start cut.store) later).any fun final => holds cut final) = true) :
    ∃ cut final : Reapers Unit,
      (system (fun _ => ["send"]) start).Reachable (OnlyDead "D") cut ∧
      (system (fun _ => ["send"]) cut.store).Reachable (OnlyDead "D") final ∧ holds cut final := by
  obtain ⟨cut, first, executed⟩ := (Option.any_eq_true _ _).mp executed
  obtain ⟨final, second, held⟩ := (Option.any_eq_true _ _).mp executed
  exact ⟨cut, final, .run (.initial rfl) first, .run (.initial rfl) second, of_decide_eq_true held⟩

theorem resumed_after_delete :
    ∃ cut final : Reapers Unit,
      (system (fun _ => ["send"]) (abandoned [])).Reachable (OnlyDead "D") cut ∧
      (system (fun _ => ["send"]) cut.store).Reachable (OnlyDead "D") final ∧
      cut.state () = .removing "D" ["send"] [] ∧ Complete final ∧ Cleared "D" final.store := by
  have run : ∃ cut final : Reapers Unit,
      (system (fun _ => ["send"]) (abandoned [])).Reachable (OnlyDead "D") cut ∧
      (system (fun _ => ["send"]) cut.store).Reachable (OnlyDead "D") final ∧
      cut.state () = .removing "D" ["send"] [] ∧ Complete final :=
    exists_resumed (round.take 7) roundWithoutHeartbeat (by decide +kernel)
  obtain ⟨cut, final, first, second, stopped, complete⟩ := run
  refine ⟨cut, final, first, second, stopped, complete, ?_⟩
  refine (resumed_iff (left_abandoned []) first (List.Subset.refl _) second complete).mpr ?_
  intro name _
  refine ⟨fun types todo cleaning => ?_, others_nonneg (held_abandoned [] name)⟩
  cases stopped.symm.trans cleaning

/-- The pool holds a lock without a job in progress. A reaper removes it and stops, the next
one goes through its round, and the lock remains taken. -/
theorem lock_left_after_remove :
    ∃ cut final : Reapers Unit,
      (system (fun _ => ["send"]) (abandoned [])).Reachable (OnlyDead "D") cut ∧
      (system (fun _ => ["send"]) cut.store).Reachable (OnlyDead "D") final ∧
      Complete final ∧ (final.store.lockInfo "send").get "D" = some 1 ∧
      (final.store.ledger "send").count = 2 ∧ others "D" final.store "send" = 1 :=
  exists_resumed (round.take 8) roundWithoutPool (by decide +kernel)

end Reapers
