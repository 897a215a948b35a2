import WorkQueue.Reaping.Rounds

/-! # Concurrent reapers agree with a single one

A reaper may find the heartbeat of the dead pool deleted by another one. It then removes the
pool and cleans up the locks of its own job types only, or it passes over the pool. Neither
does harm, as the reaper that has deleted the heartbeat goes on to clean up all job types of
the pool (`Reapers.Handled`). Hence all reapers together leave the store that a single one
leaves, up to the order of the queues (`Reapers.concurrent_reapers_agree`).
-/

namespace Reapers

section Invariant

variable {ID : Type} [DecidableEq ID] {dead : PoolID} {names : List String}
  {curJobTypes : ID → List String} {start : Store} {reapers target : Reapers ID}
  {event : ID × Reaper.Event}

/-- The invariant of all reapers on the store. -/
structure Running (dead : PoolID) (names : List String) (curJobTypes : ID → List String)
    (start : Store) (reapers : Reapers ID) : Prop where
  reaping : Reaping dead start reapers.store
  sound : ∀ id, Sound dead names (curJobTypes id) reapers.store (reapers.state id)

/-- The pool has no entry among the holders of any lock. -/
def Forgotten (dead : PoolID) (redis : Store) : Prop :=
  ∀ name, (redis.lockInfo name).get dead = none

/-- The rest of the clean-up is in the hands of a reaper that knows all job names, or it is
done. -/
def Handled (dead : PoolID) (names : List String) (reapers : Reapers ID) : Prop :=
  (∃ id lockJobTypes todo,
      reapers.state id = .removing dead lockJobTypes todo ∧ names ⊆ lockJobTypes) ∨
    dead ∉ reapers.store.workerPools ∧
      ((∃ id lockJobTypes todo,
          reapers.state id = .cleaning dead lockJobTypes todo ∧ names ⊆ lockJobTypes) ∨
        Forgotten dead reapers.store)

/-- A reaper has yet to turn to the pool. -/
def Ahead (dead : PoolID) : Reaper.State → Prop
  | .scanning todo found => dead ∈ todo ∨ ∃ entry ∈ found, entry.1 = dead
  | .reading _ _ _ | .requeueing _ _ _ | .deleting _ _ _ => True
  | .idle | .removing _ _ _ | .cleaning _ _ _ => False

/-- No reaper ends its round before the pool is taken care of. -/
structure Duty (dead : PoolID) (names : List String) (reapers : Reapers ID) : Prop where
  absent : dead ∉ reapers.store.workerPools → Handled dead names reapers
  ahead : ∀ id, reapers.state id ≠ .idle →
    Handled dead names reapers ∨ Ahead dead (reapers.state id)
  ended : ∀ id, 0 < reapers.rounds id → Handled dead names reapers

theorem Running.move (running : Running dead names curJobTypes start reapers)
    (only : OnlyDead dead reapers event)
    (stepped : step curJobTypes reapers event = some target) :
    ∃ state, Move dead (curJobTypes event.1) reapers.store (reapers.state event.1) target.store
        state ∧ target.state = Function.update reapers.state event.1 state ∧
      target.rounds = if state = .idle then
          Function.update reapers.rounds event.1 (reapers.rounds event.1 + 1)
        else reapers.rounds :=
  move_of_step (running.sound event.1) only stepped

theorem Running.step (running : Running dead names curJobTypes start reapers)
    (left : Left dead names start) (only : OnlyDead dead reapers event)
    (stepped : step curJobTypes reapers event = some target) :
    Running dead names curJobTypes start target := by
  obtain ⟨state, moved, states, -⟩ := running.move only stepped
  obtain ⟨reaping, onward, sound⟩ := moved.reaping left running.reaping (running.sound event.1)
  refine ⟨reaping, fun id => ?_⟩
  rw [states]
  by_cases same : id = event.1
  · subst same
    rw [Function.update_self]
    exact sound
  · rw [Function.update_of_ne same]
    exact (running.sound id).mono onward

theorem Move.of_idle {redis next : Store} {cur : List String} {after : Reaper.State}
    (moved : Move dead cur redis .idle next after) :
    ∃ order : List PoolID, order.toFinset = redis.workerPools ∧ next = redis ∧
      after = .scanning order [] := by
  cases moved with
  | listed complete => exact ⟨_, complete, rfl, rfl⟩

theorem Move.of_removing {redis next : Store} {cur lockJobTypes : List String}
    {todo : List (PoolID × List String)} {after : Reaper.State}
    (moved : Move dead cur redis (.removing dead lockJobTypes todo) next after) :
    next = Reaper.sremPool redis dead ∧ after = .cleaning dead lockJobTypes todo := by
  cases moved
  exact ⟨rfl, rfl⟩

theorem Move.of_cleaning {redis next : Store} {cur lockJobTypes : List String}
    {todo : List (PoolID × List String)} {after : Reaper.State}
    (moved : Move dead cur redis (.cleaning dead lockJobTypes todo) next after) :
    next = redis.redisLuaReapStaleLocks dead lockJobTypes := by
  cases moved
  rfl

/-- Only the reaper that has emptied the lists deletes the heartbeat. -/
theorem Move.of_deleted {redis next : Store} {cur : List String} {before after : Reaper.State}
    (moved : Move dead cur redis before next after) (sound : Sound dead names cur redis before)
    (present : redis.heartbeat dead ≠ none) (missing : next.heartbeat dead = none) :
    ∃ todo, after = .removing dead names todo := by
  cases moved with
  | deleted =>
      obtain ⟨-, -, rfl, -⟩ := sound
      exact ⟨_, rfl⟩
  | @cleaned lockJobTypes =>
      obtain ⟨lock, lockInfo, same, -⟩ := redis.redisLuaReapStaleLocks_eq dead lockJobTypes
      rw [same] at missing
      exact absurd missing present
  | _ => exact absurd missing present

/-- The pool gets no new entry after its lists were emptied. -/
theorem Forgotten.move {redis next : Store} {cur : List String} {before after : Reaper.State}
    (forgotten : Forgotten dead redis) (drained : Drained dead redis)
    (moved : Move dead cur redis before next after) : Forgotten dead next := by
  cases moved with
  | @requeued _ _ name _ _ _ split =>
      cases (List.append_eq_nil_iff.mp (split.symm.trans (drained name))).2
  | cleaned =>
      intro name
      rw [Store.get_redisLuaReapStaleLocks]
      split
      · rfl
      · exact forgotten name
  | _ => exact forgotten

/-- Cleaning up all job names leaves no entry of the pool. -/
theorem Reaping.forgotten {redis : Store} (reaping : Reaping dead start redis)
    (left : Left dead names start) {lockJobTypes : List String} (covers : names ⊆ lockJobTypes) :
    Forgotten dead (redis.redisLuaReapStaleLocks dead lockJobTypes) := by
  intro name
  rw [Store.get_redisLuaReapStaleLocks]
  split
  · rfl
  · next other =>
      by_contra held
      have member := left.names name (reaping.balanced name (.inr held)).1
      exact other ⟨rfl, covers member⟩

theorem Handled.step (handled : Handled dead names reapers)
    (running : Running dead names curJobTypes start reapers) (left : Left dead names start)
    (only : OnlyDead dead reapers event)
    (stepped : Reapers.step curJobTypes reapers event = some target) :
    Handled dead names target := by
  obtain ⟨state, moved, states, -⟩ := running.move only stepped
  obtain ⟨-, onward, -⟩ := moved.reaping left running.reaping (running.sound event.1)
  rcases handled with ⟨id, types, todo, here, covers⟩ |
    ⟨unlisted, ⟨id, types, todo, here, covers⟩ | forgotten⟩
  · by_cases same : id = event.1
    · subst same
      rw [here] at moved
      obtain ⟨store, rfl⟩ := moved.of_removing
      refine .inr ⟨?_, .inl ⟨event.1, types, todo, ?_, covers⟩⟩
      · rw [store]
        exact Finset.notMem_erase _ _
      · rw [states, Function.update_self]
    · refine .inl ⟨id, types, todo, ?_, covers⟩
      rw [states, Function.update_of_ne same, here]
  · by_cases same : id = event.1
    · subst same
      rw [here] at moved
      refine .inr ⟨onward.pools unlisted, .inr ?_⟩
      rw [moved.of_cleaning]
      exact running.reaping.forgotten left covers
    · refine .inr ⟨onward.pools unlisted, .inl ⟨id, types, todo, ?_, covers⟩⟩
      rw [states, Function.update_of_ne same, here]
  · have drained := running.reaping.drained (running.reaping.absent unlisted)
    exact .inr ⟨onward.pools unlisted, .inr (forgotten.move drained moved)⟩

/-- A reaper stays ahead of the pool until it deletes the heartbeat, or finds it deleted. -/
theorem Ahead.move {redis next : Store} {cur : List String} {before after : Reaper.State}
    (ahead : Ahead dead before) (sound : Sound dead names cur redis before) (named : names ≠ [])
    (moved : Move dead cur redis before next after) :
    (Ahead dead after ∧ next.workerPools = redis.workerPools) ∨
      (∃ todo, after = .removing dead names todo) ∨
      redis.heartbeat dead = none ∧
        ((∃ todo found, before = .reading dead todo found) ∨
          ∃ todo, after = .removing dead cur todo) := by
  cases moved with
  | listed | removed | cleaned => exact ahead.elim
  | passed other =>
      refine .inl ⟨ahead.imp_left fun member => ?_, rfl⟩
      exact (List.mem_cons.mp member).resolve_left other.symm
  | expired | read => exact .inl ⟨.inr ⟨_, List.mem_append_right _ List.mem_cons_self, rfl⟩, rfl⟩
  | old | requeued | emptied => exact .inl ⟨trivial, rfl⟩
  | gone missing => exact .inr (.inr ⟨missing, .inl ⟨_, _, rfl⟩⟩)
  | @begun found order same =>
      obtain ⟨entry, member, -⟩ := ahead.resolve_left List.not_mem_nil
      cases order with
      | nil => exact absurd (same.mem_iff.mpr member) List.not_mem_nil
      | cons first order =>
          obtain ⟨pool, jobTypes⟩ := first
          obtain ⟨rfl, known⟩ := sound _ (same.mem_iff.mp List.mem_cons_self)
          rw [Reaper.proceed]
          split
          · exact .inl ⟨trivial, rfl⟩
          · next nothing =>
              rcases known with known | ⟨-, missing⟩
              · exact absurd (known.symm.trans (not_not.mp nothing)) named
              · exact .inr (.inr ⟨missing, .inr ⟨order, rfl⟩⟩)
  | deleted =>
      obtain ⟨-, -, rfl, -⟩ := sound
      exact .inr (.inl ⟨_, rfl⟩)

/-- A step of a reaper keeps the duties, if a reaper that finds the heartbeat deleted may rely
on others, or cleans up all job names itself. -/
theorem Duty.step (duty : Duty dead names reapers)
    (running : Running dead names curJobTypes start reapers) (left : Left dead names start)
    (only : OnlyDead dead reapers event)
    (resolve : reapers.store.heartbeat dead = none → Handled dead names reapers ∨
      names ⊆ curJobTypes event.1 ∧
        ∀ todo found, reapers.state event.1 ≠ .reading dead todo found)
    (stepped : Reapers.step curJobTypes reapers event = some target) :
    Duty dead names target := by
  have kept : Handled dead names reapers → Handled dead names target :=
    fun handled => handled.step running left only stepped
  obtain ⟨state, moved, states, rounds⟩ := running.move only stepped
  have here : target.state event.1 = state := by rw [states, Function.update_self]
  suffices turned : Handled dead names target ∨
      Ahead dead state ∧ target.store.workerPools = reapers.store.workerPools by
    refine ⟨fun unlisted => ?_, fun id busy => ?_, fun id positive => ?_⟩
    · rcases turned with handled | ⟨-, same⟩
      · exact handled
      · exact kept (duty.absent (same ▸ unlisted))
    · rcases turned with handled | ⟨ahead, -⟩
      · exact .inl handled
      · by_cases same : id = event.1
        · rw [same, here]
          exact .inr ahead
        · rw [states, Function.update_of_ne same] at busy ⊢
          exact (duty.ahead id busy).imp_left kept
    · rcases turned with handled | ⟨ahead, -⟩
      · exact handled
      · have busy : state ≠ .idle := by
          rintro rfl
          exact ahead
        rw [rounds, if_neg busy] at positive
        exact kept (duty.ended id positive)
  by_cases idle : reapers.state event.1 = .idle
  · rw [idle] at moved
    obtain ⟨order, complete, store, rfl⟩ := moved.of_idle
    by_cases listed : dead ∈ reapers.store.workerPools
    · refine .inr ⟨.inl ?_, by rw [store]⟩
      rw [← List.mem_toFinset, complete]
      exact listed
    · exact .inl (kept (duty.absent listed))
  rcases duty.ahead event.1 idle with handled | ahead
  · exact .inl (kept handled)
  rcases ahead.move (running.sound event.1) left.names_ne_nil moved with
    further | ⟨todo, rfl⟩ | ⟨missing, deleted⟩
  · exact .inr further
  · exact .inl (.inl ⟨event.1, names, todo, here, List.Subset.refl _⟩)
  · rcases resolve missing with handled | ⟨covers, unread⟩
    · exact .inl (kept handled)
    · rcases deleted with ⟨todo, found, reading⟩ | ⟨todo, rfl⟩
      · exact absurd reading (unread todo found)
      · exact .inl (.inl ⟨event.1, _, todo, here, covers⟩)

omit [DecidableEq ID] in
/-- When all reapers have ended their rounds, the pool is gone. -/
theorem Duty.finished (duty : Duty dead names reapers) (complete : Complete reapers) :
    dead ∉ reapers.store.workerPools ∧ Forgotten dead reapers.store := by
  obtain ⟨idle, id, positive⟩ := complete
  rcases duty.ended id positive with ⟨other, types, todo, busy, -⟩ |
    ⟨unlisted, ⟨other, types, todo, busy, -⟩ | forgotten⟩
  · cases (idle other).symm.trans busy
  · cases (idle other).symm.trans busy
  · exact ⟨unlisted, forgotten⟩

/-- A reaper that finds the heartbeat deleted relies on the one that has deleted it. -/
structure Concurrent (dead : PoolID) (names : List String) (curJobTypes : ID → List String)
    (start : Store) (reapers : Reapers ID) : Prop
    extends Running dead names curJobTypes start reapers, Duty dead names reapers where
  deleted : reapers.store.heartbeat dead = none → Handled dead names reapers

omit [DecidableEq ID] in
theorem concurrent_start (left : Left dead names start) :
    Concurrent dead names curJobTypes start (Reapers.start start) where
  reaping := left.reaping
  sound _ := trivial
  absent unlisted := absurd left.listed unlisted
  ahead _ busy := absurd rfl busy
  ended _ positive := absurd positive (lt_irrefl 0)
  deleted missing := by
    obtain ⟨heartbeat, present, -⟩ := left.heartbeat
    cases present.symm.trans missing

theorem Concurrent.step (concurrent : Concurrent dead names curJobTypes start reapers)
    (left : Left dead names start) (only : OnlyDead dead reapers event)
    (stepped : Reapers.step curJobTypes reapers event = some target) :
    Concurrent dead names curJobTypes start target := by
  have running := concurrent.toRunning
  refine { running.step left only stepped,
    concurrent.toDuty.step running left only (fun missing => .inl (concurrent.deleted missing))
      stepped with
    deleted := fun missing => ?_ }
  by_cases before : reapers.store.heartbeat dead = none
  · exact (concurrent.deleted before).step running left only stepped
  · obtain ⟨state, moved, states, -⟩ := running.move only stepped
    obtain ⟨todo, rfl⟩ := moved.of_deleted (running.sound event.1) before missing
    refine .inl ⟨event.1, names, todo, ?_, List.Subset.refl _⟩
    rw [states, Function.update_self]

end Invariant

section Outcome

variable {dead : PoolID} {names : List String} {start redis : Store}

instance (dead : PoolID) (redis : Store) (name : String) : Decidable (Pending dead redis name) :=
  inferInstanceAs (Decidable (_ ∨ _))

/-- What the reaping of a dead pool is for: its jobs in progress are back on their queues, its
entries are gone from the locks, and it is no longer listed. -/
def reaped (dead : PoolID) (start : Store) : Store :=
  { start with
    list := fun key => match key with
      | .jobs name => start.list (.jobs name) ++ start.list (.inProgress dead name)
      | .inProgress pool name => if pool = dead then [] else start.list (.inProgress pool name)
    lock := fun name =>
      if Pending dead start name then some (max 0 (others dead start name)) else start.lock name
    lockInfo := fun name => (start.lockInfo name).erase dead
    workerPools := start.workerPools.erase dead
    heartbeat := Function.update start.heartbeat dead none }

theorem Reaping.drained_of_unlisted (reaping : Reaping dead start redis)
    (unlisted : dead ∉ redis.workerPools) : Drained dead redis :=
  reaping.drained (reaping.absent unlisted)

/-- A clean-up that has come to its end. -/
theorem Reaping.sameUpToOrder (reaping : Reaping dead start redis)
    (unlisted : dead ∉ redis.workerPools) (forgotten : Forgotten dead redis) :
    redis.SameUpToOrder (reaped dead start) := by
  have drained := reaping.drained_of_unlisted unlisted
  have nothing : ∀ name, ¬ Pending dead redis name :=
    fun name pending => pending.elim (· (drained name)) (· (forgotten name))
  have frame := reaping.frame
  simp only [Prod.mk.injEq] at frame
  obtain ⟨zset, paused, caps, unique, known⟩ := frame
  refine ⟨?_, fun key => ?_, fun key entry => ?_⟩
  · simp only [reaped, Store.mk.injEq, paused, caps, unique, known, true_and]
    refine ⟨?_, ?_, ?_, ?_⟩
    · funext name
      split
      · next had => exact (reaping.settled name (nothing name) had).symm
      · next hadNot => exact (reaping.untouched name hadNot).symm
    · funext name
      rw [← reaping.holders name, FinMap.erase_of_none _ (forgotten name)]
    · rcases reaping.pools with same | gone
      · rw [same, Finset.erase_eq_of_notMem (same ▸ unlisted)]
      · exact gone.symm
    · rcases reaping.heartbeats with same | gone
      · rw [same, Function.update_eq_self_iff, ← same]
        exact (reaping.absent unlisted).symm
      · exact gone.symm
  · cases key with
    | jobs name =>
        have queue := reaping.queues name
        rw [drained name, List.append_nil] at queue
        exact queue
    | inProgress pool name =>
        simp only [reaped]
        split
        · next same =>
            rw [same, drained name]
        · next other =>
            rw [reaping.lists _ fun name' => ⟨by simp, by simp [other]⟩]
  · rw [zset]
    rfl

theorem others_nonneg {name : String}
    (nonnegative : ∀ pool, pool ≠ dead → 0 ≤ (start.lockInfo name).amount pool) :
    0 ≤ others dead start name := by
  refine Finset.sum_nonneg fun pool _ => ?_
  by_cases same : pool = dead
  · rw [same, FinMap.amount_erase_self]
  · rw [FinMap.amount_erase_of_ne _ same]
    exact nonnegative pool same

/-- The lock is what the other pools hold unless that is negative. -/
theorem count_reaped_iff (left : Left dead names start) {name : String} :
    ((reaped dead start).ledger name).count = others dead start name ↔
      (Pending dead start name → 0 ≤ others dead start name) := by
  simp only [Store.ledger, reaped]
  split
  · next pending =>
      rw [Option.getD_some, max_eq_right_iff]
      exact ⟨fun nonnegative _ => nonnegative, fun nonnegative => nonnegative pending⟩
  · next nothing =>
      have unheld : (start.lockInfo name).get dead = none := by
        by_contra held
        exact nothing (.inr held)
      have balanced : (start.lock name).getD 0 = (start.lockInfo name).total :=
        left.balanced name
      rw [balanced, others, FinMap.erase_of_none _ unheld]
      exact ⟨fun _ pending => absurd pending nothing, fun _ => rfl⟩

end Outcome

section Single

variable {dead : PoolID} {names cur : List String} {start redis next : Store}
  {state after : Reaper.State}

/-- A single reaper. -/
def single (redis : Store) (state : Reaper.State) (rounds : ℕ) : Reapers Unit :=
  ⟨redis, fun _ => state, fun _ => rounds⟩

/-- A single reaper gets to a state. -/
def Reaches (dead : PoolID) (cur : List String) (start redis : Store) (state : Reaper.State) :
    Prop :=
  ∃ rounds,
    (system (fun _ => cur) start).Reachable (OnlyDead dead) (single redis state rounds)

theorem step_single {event : Reaper.Event} {rounds : ℕ}
    (stepped : Reaper.step cur redis state event = some (next, after)) :
    step (fun _ => cur) (single redis state rounds) ((), event) =
      some (single next after (if after = .idle then rounds + 1 else rounds)) := by
  simp only [step, single, stepped, Option.map_some, Option.some.injEq, Reapers.mk.injEq, true_and]
  refine ⟨?_, ?_⟩
  · funext id
    exact Function.update_self _ _ _
  · funext id
    split <;> simp

theorem Reaches.step (reaches : Reaches dead cur start redis state) (event : Reaper.Event)
    (stepped : Reaper.step cur redis state event = some (next, after))
    (only : ∀ rounds, OnlyDead dead (single redis state rounds) ((), event)) :
    Reaches dead cur start next after := by
  obtain ⟨rounds, reached⟩ := reaches
  exact ⟨_, .step reached (only rounds) (step_single stepped)⟩

/-- The reaper reads the heartbeats and finds the dead pool with its job names. -/
theorem Reaches.scanned (left : Left dead names start) {now : Int64} {todo : List PoolID}
    (judged : ∀ pool ∈ todo, (FoundDead (start.heartbeat pool) now ↔ pool = dead)) :
    ∀ {found : List (PoolID × List String)},
      Reaches dead cur start start (.scanning todo found) →
      Reaches dead cur start start
        (.scanning [] (found ++ (todo.filter (· = dead)).map fun pool => (pool, names))) := by
  induction todo with
  | nil =>
      intro found reaches
      rwa [List.filter_nil, List.map_nil, List.append_nil]
  | cons pool todo ih =>
      intro found reaches
      have looked : ∀ rounds, OnlyDead dead (single start (.scanning (pool :: todo) found) rounds)
          ((), .heartbeatAt now .ok) := fun rounds => ⟨rfl, judged pool List.mem_cons_self⟩
      have later := fun other member => judged other (List.mem_cons_of_mem _ member)
      by_cases same : pool = dead
      · subst same
        obtain ⟨heartbeat, present, rfl⟩ := left.heartbeat
        have late : heartbeat.heartbeatAt.toInt + deadTime ≤ now.toInt :=
          (judged pool List.mem_cons_self).mpr rfl heartbeat present
        have reading : Reaches pool cur start start (.reading pool todo found) := by
          refine reaches.step (.heartbeatAt now .ok) ?_ looked
          simp only [Reaper.step, Reply.deliver, present, gt_iff_lt, not_lt.mpr late, ↓reduceIte]
        have read : Reaches pool cur start start
            (.scanning todo (found ++ [(pool, splitNames heartbeat.jobNames)])) := by
          refine reading.step (.jobNames .ok) ?_ fun _ => ⟨rfl, trivial⟩
          simp only [Reaper.step, Reply.deliver, present]
        have done := ih later read
        rwa [List.filter_cons_of_pos (by simp), List.map_cons, List.append_cons]
      · obtain ⟨heartbeat, present, young⟩ : ∃ heartbeat, start.heartbeat pool = some heartbeat ∧
            now.toInt < heartbeat.heartbeatAt.toInt + deadTime := by
          by_contra none
          refine same ((judged pool List.mem_cons_self).mp fun heartbeat present => ?_)
          by_contra young
          exact none ⟨heartbeat, present, not_le.mp young⟩
        have passed : Reaches dead cur start start (.scanning todo found) := by
          refine reaches.step (.heartbeatAt now .ok) ?_ looked
          simp only [Reaper.step, Reply.deliver, present, gt_iff_lt, young, ↓reduceIte]
        rw [List.filter_cons_of_neg (by simpa using same)]
        exact ih later passed

/-- The reaper moves the jobs back until the lists in progress are empty. -/
theorem Reaches.requeued {todo : List (PoolID × List String)} {count : ℕ} :
    ∀ {redis : Store},
      (names.map fun name => (redis.list (.inProgress dead name)).length).sum = count →
      Reaches dead cur start redis (.requeueing dead names todo) →
      ∃ next, Reaches dead cur start next (.deleting dead names todo) := by
  induction count using Nat.strong_induction_on with
  | _ count ih =>
      intro redis size reaches
      rcases redis.redisLuaReenqueueJob_cases dead names with
        ⟨nothing, -⟩ | ⟨name, raw, rest, member, split, moved⟩
      · refine ⟨redis, reaches.step (.requeue .ok) ?_ fun _ => ⟨rfl, trivial⟩⟩
        simp only [Reaper.step, nothing, Reply.deliver]
      · have stepped : Reaper.step cur redis (.requeueing dead names todo) (.requeue .ok) =
            some ((redis.move (.inProgress dead name) (.jobs name) rest raw).releaseLock name dead,
              .requeueing dead names todo) := by
          simp only [Reaper.step, moved, Reply.deliver]
        refine ih _ ?_ rfl (reaches.step (.requeue .ok) stepped fun _ => ⟨rfl, trivial⟩)
        rw [← size]
        refine List.sum_lt_sum _ _ (fun other _ => ?_) ⟨name, member, ?_⟩
        · rw [Store.list_releaseLock]
          by_cases same : other = name
          · rw [same, Store.list_move_source (by simp), split, List.length_append]
            omega
          · rw [Store.list_move_of_ne (by simpa using same) (by simp)]
        · rw [Store.list_releaseLock, Store.list_move_source (by simp), split, List.length_append]
          simp

/-- A single reaper that finds the dead pool completes its round. -/
theorem exists_single (left : Left dead names start) (cur : List String) {now : Int64}
    (judged : ∀ pool ∈ start.workerPools, (FoundDead (start.heartbeat pool) now ↔ pool = dead)) :
    ∃ final : Reapers Unit,
      (system (fun _ => cur) start).Reachable (OnlyDead dead) final ∧ Complete final := by
  have begun : Reaches dead cur start start .idle := ⟨0, .initial rfl⟩
  have listed : Reaches dead cur start start (.scanning start.workerPools.toList []) := by
    refine begun.step (.members start.workerPools.toList .ok) ?_ fun _ => ⟨rfl, trivial⟩
    simp only [Reaper.step, Finset.nodup_toList, Finset.toList_toFinset, and_self, ↓reduceIte]
  have scanned := listed.scanned left fun pool member => judged pool (Finset.mem_toList.mp member)
  have found : start.workerPools.toList.filter (· = dead) = [dead] := by
    rw [List.filter_eq, List.count_eq_one_of_mem (Finset.nodup_toList _)
      (Finset.mem_toList.mpr left.listed), List.replicate_one]
  rw [found, List.map_singleton, List.nil_append] at scanned
  have requeueing : Reaches dead cur start start (.requeueing dead names []) := by
    refine scanned.step (.reap [(dead, names)]) ?_ fun _ => ⟨rfl, trivial⟩
    simp only [Reaper.step, List.Perm.refl, ↓reduceIte, Reaper.proceed, ne_eq,
      left.names_ne_nil, not_false_eq_true]
  obtain ⟨redis, deleting⟩ := requeueing.requeued rfl
  have removing : Reaches dead cur start (Reaper.delHeartbeat redis dead)
      (.removing dead names []) := deleting.step (.delete .ok) rfl fun _ => ⟨rfl, trivial⟩
  have cleaning : Reaches dead cur start (Reaper.sremPool (Reaper.delHeartbeat redis dead) dead)
      (.cleaning dead names []) := removing.step (.remove .ok) rfl fun _ => ⟨rfl, trivial⟩
  obtain ⟨rounds, reached⟩ := cleaning
  have cleaned : Reaper.step cur (Reaper.sremPool (Reaper.delHeartbeat redis dead) dead)
      (.cleaning dead names []) (.clean .ok) = some (_, .idle) := rfl
  exact ⟨_, .step reached ⟨rfl, trivial⟩ (step_single cleaned), fun _ => rfl, (),
    Nat.succ_pos rounds⟩

end Single

/-- When all reapers have ended their rounds, the clean-up has come to its end. -/
theorem outcome {ID : Type} [DecidableEq ID] {dead : PoolID} {names : List String}
    {start : Store} (left : Left dead names start) {curJobTypes : ID → List String}
    {final : Reapers ID} (reached : (system curJobTypes start).Reachable (OnlyDead dead) final)
    (complete : Complete final) : final.store.SameUpToOrder (reaped dead start) := by
  have concurrent : Concurrent dead names curJobTypes start final := by
    refine reached.invariant (Concurrent dead names curJobTypes start) ?_ ?_
    · rintro _ rfl
      exact concurrent_start left
    · intro source event target _ concurrent only stepped
      exact concurrent.step left only stepped
  obtain ⟨unlisted, forgotten⟩ := concurrent.toDuty.finished complete
  exact concurrent.reaping.sameUpToOrder unlisted forgotten

/-- A pool has crashed with jobs in progress and one entry, while another one runs a job too. -/
def abandoned (jobs : List RawJSON) : Store :=
  { (System.emptyState.redis.acquireLock "send" "D").acquireLock "send" "B" with
    list := Function.update (fun _ => []) (.inProgress "D" "send") jobs
    workerPools := {"B", "D"}
    heartbeat := fun pool => some ((System.single.pool pool).heartbeat 0
      (if pool = "D" then 0 else 100)) }

theorem ledger_abandoned (jobs : List RawJSON) (name : String) :
    (abandoned jobs).ledger name =
      ((System.emptyState.redis.acquireLock "send" "D").acquireLock "send" "B").ledger name := rfl

theorem left_abandoned (jobs : List RawJSON) : Left "D" ["send"] (abandoned jobs) where
  listed := Finset.mem_insert_of_mem (Finset.mem_singleton_self "D")
  heartbeat := ⟨_, rfl, by decide +kernel⟩
  names name pending := by
    by_contra other
    have different : name ≠ "send" := by simpa using other
    rcases pending with nonempty | held
    · have elsewhere : ListKey.inProgress "D" name ≠ .inProgress "D" "send" := by
        simpa using different
      refine nonempty ?_
      simp only [abandoned, Function.update_of_ne elsewhere]
    · refine held ?_
      change ((abandoned jobs).ledger name).held.get "D" = none
      rw [ledger_abandoned, Store.ledger_acquireLock_of_ne _ _ _ different,
        Store.ledger_acquireLock_of_ne _ _ _ different]
      rfl
  balanced name := by
    have empty : (System.emptyState.redis.ledger name).Balanced := rfl
    rw [ledger_abandoned]
    by_cases same : name = "send"
    · subst same
      rw [Store.ledger_acquireLock, Store.ledger_acquireLock]
      exact (empty.acquire "D").acquire "B"
    · rw [Store.ledger_acquireLock_of_ne _ _ _ same, Store.ledger_acquireLock_of_ne _ _ _ same]
      exact empty

theorem held_abandoned (jobs : List RawJSON) (name : String) (pool : PoolID)
    (other : pool ≠ "D") : 0 ≤ ((abandoned jobs).lockInfo name).amount pool := by
  change 0 ≤ ((abandoned jobs).ledger name).held.amount pool
  rw [ledger_abandoned]
  by_cases same : name = "send"
  · subst same
    by_cases running : pool = "B"
    · subst running
      decide +kernel
    · rw [Store.ledger_acquireLock, Store.ledger_acquireLock,
        Ledger.amount_acquire_of_ne _ running, Ledger.amount_acquire_of_ne _ other]
      exact le_rfl
  · rw [Store.ledger_acquireLock_of_ne _ _ _ same, Store.ledger_acquireLock_of_ne _ _ _ same]
    exact le_rfl

/-- One reaper requeues the job and deletes the heartbeat. Then the other one, which does not
know the job name, finds the pool without a heartbeat and removes it. -/
def bothReap : List (Bool × Reaper.Event) :=
  [.members ["D", "B"] .ok, .heartbeatAt 20 .ok, .jobNames .ok, .heartbeatAt 20 .ok,
      .reap [("D", ["send"])], .requeue .ok, .requeue .ok, .delete .ok].map (false, ·) ++
    [.members ["D", "B"] .ok, .heartbeatAt 20 .ok, .heartbeatAt 20 .ok, .reap [("D", [])],
      .remove .ok, .clean .ok].map (true, ·) ++
    [.remove .ok, .clean .ok].map (false, ·)

/-- **Concurrent reapers agree with a single one.** The locks are balanced, the other pools
hold nothing negative, and a dead pool is listed with an old heartbeat that gives all its job
names. Whatever reapers do together, when they have ended their rounds the jobs of the pool are
back on their queues, the pool has no entry, the locks are what the other pools hold, the pool
is not listed, and the store is the one that a single reaper leaves, up to the order of the
queues. -/
theorem concurrent_reapers_agree {ID : Type} [DecidableEq ID] {dead : PoolID}
    {names : List String} {start : Store} (left : Left dead names start)
    (nonnegative : ∀ name pool, pool ≠ dead → 0 ≤ (start.lockInfo name).amount pool)
    {now : Int64}
    (judged : ∀ pool ∈ start.workerPools, (FoundDead (start.heartbeat pool) now ↔ pool = dead))
    {curJobTypes : ID → List String} {final : Reapers ID}
    (reached : (system curJobTypes start).Reachable (OnlyDead dead) final)
    (complete : Complete final) (cur : List String) :
    (∀ name, final.store.list (.inProgress dead name) = []) ∧
      (∀ name, (final.store.list (.jobs name)).Perm
        (start.list (.jobs name) ++ start.list (.inProgress dead name))) ∧
      (∀ name, (final.store.lockInfo name).get dead = none) ∧
      (∀ name, (final.store.ledger name).count = others dead start name) ∧
      dead ∉ final.store.workerPools ∧
      ∃ alone : Reapers Unit,
        (system (fun _ => cur) start).Reachable (OnlyDead dead) alone ∧ Complete alone ∧
          final.store.SameUpToOrder alone.store := by
  have same := outcome left reached complete
  obtain ⟨alone, single, done⟩ := exists_single left cur judged
  refine ⟨fun name => ?_, fun name => ?_, fun name => ?_, fun name => ?_, ?_, alone, single, done,
    same.trans (outcome left single done).symm⟩
  · have list := same.lists (.inProgress dead name)
    simp only [reaped, ↓reduceIte] at list
    exact list.eq_nil
  · exact same.lists (.jobs name)
  · have holders : final.store.lockInfo = (reaped dead start).lockInfo := by rw [same.frame]
    rw [holders]
    exact FinMap.get_erase_self _ _
  · have ledger : final.store.ledger name = (reaped dead start).ledger name := by
      rw [same.frame]
      rfl
    rw [ledger]
    exact (count_reaped_iff left).mpr fun _ => others_nonneg (nonnegative name)
  · have pools : final.store.workerPools = (reaped dead start).workerPools := by rw [same.frame]
    rw [pools]
    exact Finset.notMem_erase _ _

theorem concurrent_reapers_agree_two :
    ∃ final : Reapers Bool,
      (system (fun id => if id then [] else ["send"]) (abandoned [.text "1"])).Reachable
          (OnlyDead "D") final ∧
        Complete final ∧ (final.store.list (.jobs "send")).Perm [.text "1"] ∧
        (final.store.ledger "send").count = 1 := by
  have run : ∃ final : Reapers Bool,
      (system (fun id => if id then [] else ["send"]) (abandoned [.text "1"])).Reachable
        (OnlyDead "D") final ∧ Complete final :=
    TransitionSystem.Reachable.exists_of_run bothReap
      (show (system _ _).initial (Reapers.start (abandoned [.text "1"])) from rfl)
      (by decide +kernel)
  obtain ⟨final, reached, complete⟩ := run
  have judged : ∀ pool ∈ (abandoned [.text "1"]).workerPools,
      (FoundDead ((abandoned [.text "1"]).heartbeat pool) 20 ↔ pool = "D") := by decide +kernel
  obtain ⟨-, queue, -, lock, -⟩ := concurrent_reapers_agree (left_abandoned _) (held_abandoned _)
    judged reached complete []
  exact ⟨final, reached, complete, queue "send", (lock "send").trans (by decide +kernel)⟩

end Reapers
