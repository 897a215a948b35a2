import WorkQueue.Delivery.Failures
import WorkQueue.Delivery.Requeueing

/-! # How often a failing job is run

A job whose handler always fails goes from its queue to a worker, from there to the retry
set and back to its queue, until it has failed as often as its type allows; then it is dead
or dropped (`System.max_fails_exact`). This holds as long as scripts can write the count of
failures in plain digits. Beyond the range of signed integers the number of runs is taken
for a negative one, and the job dies after its first run (`System.dead_after_first_run`).
-/

/-- How often a job of a type is run. -/
def JobOptions.attempts (options : JobOptions) : ℕ :=
  if options.maxFails = 0 then 4 else options.maxFails.toNat

section Options

variable {options filled : JobOptions}

/-- The defaults fill in the number of runs and keep the rest. -/
theorem JobOptions.attempts_of_valid (valid : applyDefaultsAndValidate options = some filled) :
    filled.maxFails.toNat = options.attempts ∧ filled.skipDead = options.skipDead := by
  simp only [applyDefaultsAndValidate, Option.ite_none_left_eq_some, Option.some.injEq] at valid
  rw [← valid.2, attempts]
  exact ⟨apply_ite UInt64.toNat _ _ _, rfl⟩

theorem JobOptions.attempts_pos (options : JobOptions) : 0 < options.attempts := by
  unfold attempts
  split
  · decide
  · next some =>
      refine Nat.pos_of_ne_zero fun zero => some ?_
      exact UInt64.toNat_inj.mp zero

theorem PoolConfig.mem_names {config : PoolConfig} {name : String} {jobType : JobType}
    (registered : config.jobType? name = some jobType) : name ∈ config.names := by
  have same : jobType.name = name := by
    have found := List.find?_some registered
    exact of_decide_eq_true found
  exact same ▸ List.mem_map_of_mem (List.mem_of_find?_eq_some registered)

end Options

namespace Worker

variable {runs : ℕ} {fails : Int64}

theorem toInt_succ (counted : fails.toInt = runs) (few : runs < 10 ^ 14) :
    (fails + 1).toInt = (runs + 1 : ℕ) := by
  rw [Int64.toInt_add, counted, Int64.toInt_one, Int.bmod_eq_of_le (by omega) (by omega)]
  push_cast
  rfl

/-- A bound within the range of the counter decides as on natural numbers. -/
theorem retries_iff {maxFails : UInt64} (counted : fails.toInt = runs) (few : runs < 10 ^ 14)
    (bounded : maxFails.toNat ≤ 10 ^ 14) :
    0 < maxFails.toInt64 - (fails + 1) ↔ runs + 1 < maxFails.toNat := by
  have bound : maxFails.toInt64.toInt = maxFails.toNat := by
    change maxFails.toBitVec.toInt = maxFails.toBitVec.toNat
    rw [BitVec.toInt_eq_toNat_bmod]
    have same : maxFails.toBitVec.toNat = maxFails.toNat := rfl
    exact Int.bmod_eq_of_le (by omega) (by omega)
  rw [Int64.lt_iff_toInt_lt, Int64.toInt_sub, bound, toInt_succ counted few, Int64.toInt_zero,
    Int.bmod_eq_of_le (by omega) (by omega)]
  omega

/-- What becomes of a job of a registered type whose handler fails. -/
theorem processJob_failing {config : PoolConfig} {job : Job} {finish : Finish}
    {jobType : JobType} (registered : config.jobType? job.name = some jobType)
    (failing : finish.error.isSome) (marshals : finish.marshals) :
    ∃ message, processJob config job finish =
      (finish.after.failed message finish.failedAt,
        if 0 < jobType.maxFails.toInt64 - (finish.after.fails + 1) then
          some (.retry, finish.now + finish.backoff,
            .json (finish.after.failed message finish.failedAt).serialize)
        else if jobType.skipDead then none
        else some (.dead, finish.now,
          .json (finish.after.failed message finish.failedAt).serialize)) := by
  obtain ⟨message, error⟩ := Option.isSome_iff_exists.mp failing
  refine ⟨message, ?_⟩
  simp only [processJob, registered, error, jobFate, terminateAndRetry, terminateAndDead, marshals,
    ↓reduceIte, Job.failed]

end Worker

namespace System

variable {deployment : Deployment} {state next : State} {event : Event} {name jobID : String}
  {runs : ℕ}

/-- Every pool registers the name with the options. -/
def Registers (deployment : Deployment) (name : String) (options : JobOptions) : Prop :=
  ∃ filled, applyDefaultsAndValidate options = some filled ∧
    ∀ id, (deployment.pool id).jobType? name = some { toJobOptions := filled, name := name }

variable {options : JobOptions}

theorem Registers.known (registers : Registers deployment name options) (id : PoolID) :
    name ∈ (deployment.pool id).names := by
  obtain ⟨filled, _, registered⟩ := registers
  exact PoolConfig.mem_names (registered id)

theorem Registers.jobType (registers : Registers deployment name options) (id : PoolID) :
    ∃ jobType, (deployment.pool id).jobType? name = some jobType ∧
      jobType.maxFails.toNat = options.attempts ∧ jobType.skipDead = options.skipDead := by
  obtain ⟨filled, valid, registered⟩ := registers
  exact ⟨_, registered id, JobOptions.attempts_of_valid valid⟩

/-- What a failed run adds: the job is retried until its last run, and then it is dead or
dropped. -/
theorem Registers.fate (registers : Registers deployment name options)
    (bounded : options.attempts ≤ 10 ^ 14) (id : PoolID) {job : Job} {finish : Finish}
    (named : job.name = name) (counted : job.fails.toInt = runs)
    (below : runs < options.attempts) (kept : Worker.Finish.KeepsIdentity finish job)
    (marshals : finish.marshals) (failing : finish.error.isSome)
    (fit : Job.FitArgs finish.after.args) (stamped : Cjson.Short finish.failedAt) :
    ∃ failed : Job, failed.id = job.id ∧ failed.name = name ∧ failed.unique = job.unique ∧
      (RawJSON.json failed.serialize).Counts (runs + 1) ∧
      (Worker.processJob (deployment.pool id) job finish).2 =
        if runs + 1 < options.attempts then
          some (.retry, finish.now + finish.backoff, .json failed.serialize)
        else if options.skipDead then none
        else some (.dead, finish.now, .json failed.serialize) := by
  obtain ⟨jobType, registered, attempts, skips⟩ := registers.jobType id
  subst named
  obtain ⟨message, processed⟩ := Worker.processJob_failing registered failing marshals
  have before : finish.after.fails.toInt = runs := by rw [kept]; exact counted
  have few : runs < 10 ^ 14 := below.trans_le bounded
  refine ⟨finish.after.failed message finish.failedAt, ?_, ?_, ?_, ?_, ?_⟩
  · rw [kept]
    rfl
  · rw [kept]
    rfl
  · rw [kept]
    rfl
  · exact .serialize (Worker.toInt_succ before few) stamped fit
  · rw [processed, ← attempts, ← skips]
    simp only [Worker.retries_iff before few (attempts ▸ bounded)]

/-- How often a job has been run and whether it is dead, by its stage. -/
inductive Standing (options : JobOptions) (dead : ℕ) : Stage → ℕ → Prop
  | fresh : dead = 0 → Standing options dead .fresh 0
  | waiting {runs : ℕ} : dead = 0 → runs < options.attempts → Standing options dead .live runs
  | dead : dead = 1 → options.skipDead = false → Standing options dead .live options.attempts
  | dropped : dead = 0 → options.skipDead → Standing options dead .over options.attempts

/-- The stage changes only when the job is enqueued or its run ends. -/
theorem observe_eq {stage : Stage} (others : event.completes jobID state = false)
    (failing : AlwaysFails name jobID state stage event) :
    stage.observe deployment jobID state event next = stage ∨
      stage = .fresh ∧ stage.observe deployment jobID state event next = .live := by
  cases event with
  | enqueuer call =>
      cases call with
      | enqueue other id now args | enqueueAt other id now args epochSeconds =>
          by_cases own : id = jobID
          · exact .inr ⟨(failing own).1, if_pos own⟩
          · exact .inl (if_neg own)
      | enqueueUnique | addToKnownJobs => exact .inl rfl
  | client call => exact failing.elim
  | pause | push => exact .inl rfl
  | pool id poolEvent =>
      refine .inl ?_
      cases poolEvent with
      | worker index workerEvent =>
          cases workerEvent with
          | finish finish reply =>
              simp only [Stage.observe]
              cases found : runningJob? state id index with
              | none => rfl
              | some job =>
                  have other : job.id ≠ jobID := by
                    intro own
                    simp [Event.completes, found, own] at others
                  simp [other]
          | _ => rfl
      | _ => rfl

theorem Standing.steady {stage : Stage} {dead : ℕ} (standing : Standing options dead stage runs)
    (others : event.completes jobID state = false)
    (failing : AlwaysFails name jobID state stage event) :
    Standing options dead (stage.observe deployment jobID state event next) runs := by
  have after : stage.observe deployment jobID state event next = stage ∨
      stage = .fresh ∧ stage.observe deployment jobID state event next = .live :=
    observe_eq others failing
  generalize stage.observe deployment jobID state event next = later at after ⊢
  rcases after with rfl | ⟨rfl, rfl⟩
  · exact standing
  · cases standing with
    | fresh alive => exact .waiting alive options.attempts_pos

/-- What is known of a failing job along a run. -/
structure Attempted (registers : Registers deployment name options) (jobID : String)
    (state : State) (memory : Stage × ℕ) : Prop where
  tracked : Tracked jobID state memory.1
  tallied : (countContract registers.known jobID memory.2).Everywhere state
  standing : Standing options (state.redis.copies jobID (.zset .dead)) memory.1 memory.2
  alive : ∀ id, (state.pools id).phase ≠ .crashed

theorem alive_step (alive : ∀ id, (state.pools id).phase ≠ .crashed) {stage : Stage}
    (failing : AlwaysFails name jobID state stage event)
    (stepped : step deployment state event = some next) (id : PoolID) :
    (next.pools id).phase ≠ .crashed := by
  rcases step_pool_cases stepped id with ⟨_, same⟩ | ⟨poolEvent, rfl, moved⟩
  · rw [same]
    exact alive id
  · have before := alive id
    generalize next.pools id = pool at moved ⊢
    generalize next.redis = redis at moved
    cases moved with
    | crashed => exact failing.elim
    | returned phase =>
        split
        · exact before
        · simp
    | advanced moved =>
        rintro rfl
        generalize (state.pools id).phase = phase at moved
        cases phase <;> cases moved
    | _ => first | exact before | simp

namespace Attempted

variable {registers : Registers deployment name options} {stage : Stage}

theorem initial (begun : Initial state) : Attempted registers jobID state (.fresh, 0) where
  tracked := Tracked.initial begun
  tallied := (countContract registers.known jobID 0).reachable (.initial begun)
  standing := .fresh (by rw [Store.copies, begun.zset, SortedSet.members_empty, List.countP_nil])
  alive id := by
    simp [begun.pools, Pool.fresh]

/-- A job that is somewhere, but not dead, has runs left. -/
theorem waiting (attempted : Attempted registers jobID state (stage, runs)) {place : Place}
    (present : 0 < state.redis.copies jobID place) (living : place ≠ .zset .dead) :
    state.redis.Placed jobID (some place) ∧ stage = .live ∧ runs < options.attempts := by
  obtain ⟨location, placed, live⟩ := attempted.tracked.fits
  obtain rfl : location = some place := placed.eq_of_pos present
  have alive : state.redis.copies jobID (.zset .dead) = 0 :=
    (placed _).2 fun same => living (Option.some.inj same)
  obtain rfl : stage = .live := live.mp rfl
  have standing := attempted.standing
  rw [alive] at standing
  refine ⟨placed, rfl, ?_⟩
  cases standing with
  | waiting _ below => exact below
  | dead impossible => cases impossible

/-- Along these runs the identifier is used once, and scripts can rewrite the job. -/
theorem distinct (attempted : Attempted registers jobID state (stage, runs))
    (failing : Failing name jobID (state, stage, runs) event) :
    Distinct jobID (state, stage) event := by
  obtain ⟨plain, crashed, each⟩ := failing
  refine ⟨plain, ?_, crashed, ?_, ?_⟩
  · intro enqueued found own
    cases event with
    | enqueuer call =>
        cases call with
        | enqueue other id now args | enqueueAt other id now args epochSeconds =>
            cases found
            exact (each own).1
        | enqueueUnique other id now args keyMap runAt =>
            cases found
            cases (plain.2 _ rfl own).2
        | addToKnownJobs => cases found
    | _ => cases found
  · intro completion found _ _ _
    unfold Event.finish? at found
    split at found
    · cases found
      exact each.1
    · cases found
  · intro key _ raw member own
    obtain ⟨_, payload⟩ := attempted.tallied.store.zsets key raw member
    obtain ⟨document, _, rfl, _, _, _, fit, _⟩ := payload.counts own
    exact fit

theorem steady (attempted : Attempted registers jobID state (stage, runs))
    (bounded : options.attempts ≤ 10 ^ 14)
    (failing : Failing name jobID (state, stage, runs) event)
    (others : event.completes jobID state = false)
    (stepped : step deployment state event = some next) : Steady name jobID runs state event := by
  refine ⟨stage, failing, others, ?_, ?_⟩
  · rintro rfl
    cases attempted.standing
    rfl
  · intro key rewrites raw member own
    have living : key ≠ .dead := by
      unfold Event.rewrites? at rewrites
      split at rewrites
      · cases rewrites
        exact (step_requeue stepped).1
      · exact failing.2.2.elim
      · exact failing.2.2.elim
      · cases rewrites
    have present : 0 < state.redis.copies jobID (.zset key) :=
      List.countP_pos_iff.mpr ⟨raw, member, own⟩
    exact (attempted.waiting present (by simpa using living)).2.2.trans_le bounded

end Attempted

/-- The count of failures of a job that is in no list is the one of its payload. -/
theorem everywhere_of_placed {known : ∀ id, name ∈ (deployment.pool id).names}
    (identity : (identityContract deployment jobID).Everywhere state)
    (faithful : ∀ id, ∀ worker ∈ (state.pools id).workers, Faithful jobID worker)
    (holding : Holding deployment state) (alive : ∀ id, (state.pools id).phase ≠ .crashed)
    {location : Option Place} (placed : state.redis.Placed jobID location)
    (offLists : ∀ key, location ≠ some (.list key))
    (counted : ∀ key, ∀ raw ∈ (state.redis.zset key).members, raw.hasID jobID →
      Tallied jobID name runs raw) : (countContract known jobID runs).Everywhere state where
  store := by
    refine ⟨fun key raw member => ?_, fun key raw member => ?_, identity.store.unique⟩
    · cases own : raw.hasID jobID with
      | true => exact (offLists key (placed.mem_list own member)).elim
      | false =>
          have tagged := identity.store.lists key raw member
          exact tallied_foreign tagged.unambiguous tagged.identified own
    · refine ⟨name, ?_⟩
      cases own : raw.hasID jobID with
      | true => exact counted key raw member own
      | false =>
          obtain ⟨_, tagged⟩ := identity.store.zsets key raw member
          exact tallied_foreign tagged.unambiguous tagged.identified own
  workers id worker member := by
    have held := identity.workers id worker member
    have honest := faithful id worker member
    have other : ∀ {job : FetchedJob}, (identityContract deployment jobID).Held id job →
        job.id ≠ jobID → (countContract known jobID runs).Held id job := by
      rintro job ⟨list, source, target, _⟩ different
      exact ⟨list, source, target, fun own => (different own).elim⟩
    cases worker with
    | idle | stopped => exact trivial
    | fetched job => exact other held (id_ne_of_unique held honest.1)
    | gotUnique job raw => exact ⟨other held.1 (id_ne_of_unique held.1 honest.1), held.2⟩
    | running job raw =>
        refine other held fun own => ?_
        obtain ⟨list, _, target, _⟩ := held
        have listed : raw ∈ state.redis.list (.inProgress id list) :=
          holding.mem_of_taken (alive id) member (by rw [Worker.State.taken, target])
        exact offLists _ (placed.mem_list (honest.mp own) listed)

/-- Where a failed job is after some runs: on the retry set, and after its last run among
the dead jobs or nowhere. -/
def placeAfter (options : JobOptions) (runs : ℕ) : Option Place :=
  if runs < options.attempts then some (.zset .retry)
  else if options.skipDead then none
  else some (.zset .dead)

theorem placeAfter_ne_list (options : JobOptions) (runs : ℕ) (key : ListKey) :
    placeAfter options runs ≠ some (.list key) := by
  unfold placeAfter
  split
  · simp
  · split <;> simp

/-- A run ends with one more failure, and the job is dead or dropped if it was the last. -/
theorem Standing.finished {redis : Store} {later : Stage} (below : runs < options.attempts)
    (placed : redis.Placed jobID (placeAfter options (runs + 1)))
    (live : (placeAfter options (runs + 1)).isSome ↔ later = .live)
    (ended : later = .live ∨ later = .over) :
    Standing options (redis.copies jobID (.zset .dead)) later (runs + 1) := by
  have copies := placed (.zset .dead)
  unfold placeAfter at copies live
  by_cases more : runs + 1 < options.attempts
  · simp only [more, ↓reduceIte] at copies live
    rw [live.mp rfl, copies.2 (by simp)]
    exact .waiting rfl more
  · have last : runs + 1 = options.attempts := by omega
    simp only [last, lt_irrefl, ↓reduceIte] at copies live
    rw [last]
    cases skips : options.skipDead with
    | true =>
        simp only [skips, ↓reduceIte] at copies live
        have gone : later = .over := ended.resolve_left fun same => by cases live.mpr same
        rw [gone, copies.2 (by simp)]
        exact .dropped rfl skips
    | false =>
        simp only [skips, Bool.false_eq_true, ↓reduceIte] at copies live
        rw [live.mp rfl, copies.1 trivial]
        exact .dead rfl skips

/-- A job that is added to a sorted set is the only one there. -/
theorem tallied_zadd {redis : Store} (absent : redis.Placed jobID none) (key : ZSetKey)
    (score : Int) {written : RawJSON} (own : written.hasID jobID)
    (tallied : Tallied jobID name runs written) :
    (redis.zadd key score written).Placed jobID (some (.zset key)) ∧
      ∀ other, ∀ raw ∈ ((redis.zadd key score written).zset other).members, raw.hasID jobID →
        Tallied jobID name runs raw := by
  refine ⟨absent.zadd_own own, fun other raw member mine => ?_⟩
  by_cases same : other = key
  · subst same
    rw [Store.zset_zadd_self, SortedSet.mem_add] at member
    rcases member with rfl | old
    · exact tallied
    · cases absent.mem_zset mine old
  · rw [Store.zset_zadd_of_ne _ same] at member
    cases absent.mem_zset mine member

namespace Attempted

variable {registers : Registers deployment name options} {stage : Stage}

/-- The end of a run puts the job where it belongs, with one more failure. -/
theorem finished (attempted : Attempted registers jobID state (stage, runs))
    (bounded : options.attempts ≤ 10 ^ 14) (holding : Holding deployment state) {id : PoolID}
    {index : ℕ} {finish : Finish} {reply : Reply} {job : FetchedJob}
    (failing : Failing name jobID (state, stage, runs)
      (.pool id (.worker index (.finish finish reply))))
    (running : runningJob? state id index = some job) (own : job.id = jobID)
    (stepped : step deployment state (.pool id (.worker index (.finish finish reply))) =
      some next) :
    stage = .live ∧ runs < options.attempts ∧
      next.redis.Placed jobID (placeAfter options (runs + 1)) ∧
      ∀ key, ∀ raw ∈ (next.redis.zset key).members, raw.hasID jobID →
        Tallied jobID name (runs + 1) raw := by
  obtain ⟨plain, _, marshals, each⟩ := failing
  obtain ⟨error, executed, fit, stamped⟩ := each job running own
  obtain ⟨raw, present⟩ := running_of_runningJob? running
  have member := List.mem_of_getElem? present
  obtain ⟨list, _, target, held⟩ := attempted.tallied.workers id _ member
  obtain ⟨named, ordinary, counted⟩ := held own
  have honest : job.id = jobID ↔ raw.hasID jobID := attempted.tracked.faithful id _ member
  have mine : raw.hasID jobID := honest.mp own
  have listed : raw ∈ state.redis.list job.inProgQueue := by
    rw [target]
    exact holding.mem_of_taken (attempted.alive id) member (by rw [Worker.State.taken, target])
  have here : 0 < state.redis.copies jobID (.list job.inProgQueue) :=
    List.countP_pos_iff.mpr ⟨raw, listed, mine⟩
  obtain ⟨placed, live, below⟩ := attempted.waiting here (by simp)
  obtain ⟨failed, sameID, sameName, sameUnique, counts, fate⟩ := registers.fate bounded id named
    counted below (plain.1.2 _ rfl job running) marshals error fit stamped
  have removed : ((state.redis.lrem job.inProgQueue raw).releaseLock
      (Worker.processJob (deployment.pool id) job.toJob finish).1.name id).Placed jobID none :=
    (placed.lrem_own mine listed).congr rfl rfl
  have written : (RawJSON.json failed.serialize).hasID jobID :=
    (hasID_serialize failed).trans (decide_eq_true (sameID.trans own))
  have nonempty : name ≠ "" := by
    have tagged := (attempted.tallied.store.lists _ raw listed).tagged
    exact (tagged.named mine).2
  have tallied : Tallied jobID name (runs + 1) (.json failed.serialize) :=
    ⟨sameName ▸ tagged_serialize failed fun _ =>
      ⟨sameName ▸ nonempty, sameUnique.trans ordinary⟩, fun _ => counts⟩
  refine ⟨live, below, ?_⟩
  obtain ⟨worker, worker', there, _, moved⟩ := step_own_worker stepped
  obtain rfl := Option.some.inj (present.symm.trans there)
  generalize next.redis = redis at moved ⊢
  cases moved with
  | unfinished => exact (executed rfl).elim
  | finished =>
      rw [fate, placeAfter]
      by_cases more : runs + 1 < options.attempts
      · rw [if_pos more, if_pos more]
        exact tallied_zadd removed _ _ written tallied
      · rw [if_neg more, if_neg more]
        by_cases skips : options.skipDead
        · rw [if_pos skips, if_pos skips]
          exact ⟨removed, fun key raw member own => by cases removed.mem_zset own member⟩
        · rw [if_neg skips, if_neg skips]
          exact tallied_zadd removed _ _ written tallied

/-- A step keeps what is known of the job. -/
theorem step (attempted : Attempted registers jobID state (stage, runs))
    (bounded : options.attempts ≤ 10 ^ 14)
    (identity : (identityContract deployment jobID).Everywhere state)
    (holding : Holding deployment state) (later : Holding deployment next)
    (failing : Failing name jobID (state, stage, runs) event)
    (stepped : System.step deployment state event = some next) :
    Attempted registers jobID next (stage.observe deployment jobID state event next,
      if event.completes jobID state then runs + 1 else runs) := by
  have tracked := attempted.tracked.step identity holding (attempted.distinct failing) stepped
  have alive := alive_step attempted.alive failing.2.2 stepped
  cases completes : event.completes jobID state with
  | false =>
      have steady := attempted.steady bounded failing completes stepped
      refine ⟨tracked, attempted.tallied.step steady stepped, ?_, alive⟩
      rw [copies_dead_step attempted.tallied steady stepped]
      exact attempted.standing.steady completes failing.2.2
  | true =>
      obtain ⟨id, index, finish, reply, job, rfl, running, own⟩ := completes_iff.mp completes
      obtain ⟨rfl, below, placed, counted⟩ :=
        attempted.finished bounded holding failing running own stepped
      refine ⟨tracked, ?_, ?_, alive⟩
      · exact everywhere_of_placed (identity.step failing.1 stepped) tracked.faithful later alive
          placed (placeAfter_ne_list options (runs + 1)) counted
      · obtain ⟨location, there, live⟩ := tracked.fits
        rw [there.unique placed] at live
        refine Standing.finished below placed live ?_
        simp only [Stage.observe, running]
        split
        · exact .inr rfl
        · exact .inl rfl

theorem reachable (registers : Registers deployment name options)
    (bounded : options.attempts ≤ 10 ^ 14)
    (reached : (counting deployment jobID).Reachable (Failing name jobID) (state, stage, runs)) :
    Attempted registers jobID state (stage, runs) := by
  refine reached.monitored_invariant (Attempted registers jobID) (fun _ begun => .initial begun) ?_
  rintro source ⟨stage, runs⟩ event target reachedSource attempted failing stepped
  have plain : (system deployment).Reachable (NonUnique jobID) source :=
    TransitionSystem.Reachable.of_monitored (reachedSource.mono fun _ _ all => all.1)
  have crashed : (system deployment).Reachable ReapsCrashed source :=
    TransitionSystem.Reachable.of_monitored (reachedSource.mono fun _ _ all => all.2.1)
  have later : (system deployment).Reachable ReapsCrashed target :=
    .step crashed failing.2.1 stepped
  exact attempted.step bounded ((identityContract deployment jobID).reachable plain)
    (Holding.reachable (fun _ _ all => all) crashed)
    (Holding.reachable (fun _ _ all => all) later) failing stepped

/-- The first due job is moved to its queue. -/
theorem requeued (attempted : Attempted registers jobID state (stage, runs)) {id : PoolID}
    {key : ZSetKey} {now : Int64} {raw : RawJSON}
    (due : ((state.redis.zset key).upTo now.toInt).head? = some raw) (own : raw.hasID jobID)
    (stepped : System.step deployment state (.pool id (.requeue key now)) = some next) :
    0 < next.redis.copies jobID (.list (.jobs name)) := by
  have member := SortedSet.mem_of_mem_upTo (List.mem_of_head? due)
  obtain ⟨_, payload⟩ := attempted.tallied.store.zsets key raw member
  obtain ⟨named, nonempty⟩ := payload.tagged.named own
  obtain ⟨decodes, fit⟩ := (payload.counts own).decodes
  obtain ⟨lua, decoded⟩ := Option.isSome_iff_exists.mp decodes
  obtain ⟨pushed, encoded, executed⟩ := Store.redisLuaZremLpushCmd_of_known due decoded named
    nonempty fit (registers.known id)
  rw [(step_requeue stepped).2, executed]
  refine List.countP_pos_iff.mpr ⟨pushed, ?_, ?_⟩
  · rw [Store.list_lpush_self]
    exact List.mem_cons_self
  · rw [(RawJSON.hasID_rewritten payload.tagged.identified decoded encoded
      (Store.sameIdentity_requeuedJob now lua)).2]
    exact own

/-- A worker that receives the job runs it. -/
theorem fetched (attempted : Attempted registers jobID state (stage, runs)) {id : PoolID}
    {index : ℕ} {order : List String} {raw : RawJSON} {source target : ListKey}
    (answer : (state.redis.redisLuaFetchJob id order).2 = some (raw, source, target))
    (own : raw.hasID jobID)
    (stepped : System.step deployment state (.pool id (.worker index (.fetch order .ok))) =
      some next) : ∃ job, runningJob? next id index = some job ∧ job.id = jobID := by
  obtain ⟨worker, worker', _, there, moved⟩ := step_own_worker stepped
  generalize next.redis = redis at moved
  cases moved with
  | nothing none =>
      rw [none (by decide)] at answer
      cases answer
  | @taken _ _ list bytes rest _ _ split _ _ taken =>
      obtain ⟨rfl, rfl, rfl⟩ : bytes = raw ∧ .jobs list = source ∧
        .inProgress id list = target := by
        simpa using taken.symm.trans answer
      have payload := attempted.tallied.store.lists (.jobs list) bytes (by rw [split]; simp)
      obtain ⟨document, job, rfl, decoded, _⟩ := payload.counts own
      obtain ⟨fetched, received, rfl⟩ := Option.map_eq_some_iff.mp
        ((toJob_newJob document (.jobs list) (.inProgress id list)).trans decoded)
      have ordinary : fetched.unique = false :=
        (newJob_unique payload.tagged.unambiguous received).symm.trans (payload.tagged.plain own)
      have sameID : some fetched.id = some jobID :=
        (Job.decode_textField payload.tagged.unambiguous decoded).2.1.symm.trans
          (of_decide_eq_true own)
      rw [if_pos rfl, Worker.received_some, received] at there
      simp only [ordinary, Bool.false_eq_true, ↓reduceIte] at there
      exact ⟨_, runningJob?_of_running there, Option.some.inj sameID⟩

theorem jobAt (attempted : Attempted registers jobID state (stage, runs))
    {location : Option Place} (placed : state.redis.Placed jobID location) :
    state.redis.JobAt jobID location runs := by
  refine ⟨placed, fun place raw member own => ?_⟩
  cases place with
  | list key => exact (attempted.tallied.store.lists key raw member).counts own
  | zset key =>
      obtain ⟨_, payload⟩ := attempted.tallied.store.zsets key raw member
      exact payload.counts own

/-- A job that has had its last run is dead or dropped. -/
theorem placed_last (attempted : Attempted registers jobID state (stage, options.attempts)) :
    state.redis.Placed jobID (placeAfter options options.attempts) := by
  obtain ⟨location, placed, live⟩ := attempted.tracked.fits
  have standing := attempted.standing
  simp only [placeAfter, lt_irrefl, ↓reduceIte]
  generalize counted : options.attempts = last at standing
  generalize copies : state.redis.copies jobID (.zset .dead) = dead at standing
  cases standing with
  | fresh => exact absurd counted options.attempts_pos.ne'
  | waiting _ below => exact absurd counted below.ne'
  | dead one keeps =>
      have here : location = some (.zset .dead) := placed.eq_of_pos (by omega)
      rw [keeps, ← here]
      exact placed
  | dropped none skips =>
      have gone : location = Option.none := by
        cases location with
        | none => rfl
        | some place => cases live.mp rfl
      rw [if_pos skips, ← gone]
      exact placed

/-- A job that has runs left waits for the next one. -/
theorem placed_waiting (attempted : Attempted registers jobID state (stage, runs))
    (identity : (identityContract deployment jobID).Everywhere state) (begun : stage ≠ .fresh)
    (below : runs < options.attempts) :
    ∃ place, place.waits name ∧ state.redis.Placed jobID (some place) := by
  obtain ⟨location, placed, live⟩ := attempted.tracked.fits
  obtain ⟨rfl, alive⟩ : stage = .live ∧ state.redis.copies jobID (.zset .dead) = 0 := by
    have standing := attempted.standing
    generalize state.redis.copies jobID (.zset .dead) = dead at standing ⊢
    cases standing with
    | fresh => exact (begun rfl).elim
    | waiting none => exact ⟨rfl, none⟩
    | dead | dropped => exact (lt_irrefl _ below).elim
  obtain ⟨place, rfl⟩ := Option.isSome_iff_exists.mp (live.mpr rfl)
  refine ⟨place, ?_, placed⟩
  have one := (placed place).1 rfl
  cases place with
  | zset key =>
      rintro rfl
      rw [alive] at one
      cases one
  | list key =>
      obtain ⟨raw, member, own⟩ := List.countP_pos_iff.mp (one.symm ▸ Nat.one_pos)
      have named := ((attempted.tallied.store.lists key raw member).tagged.named own).1
      exact Option.some.inj (((identity.store.lists key raw member).named own).1.symm.trans named)

end Attempted

/-- Runs of a job whose handler always fails in which the keys are kept apart. -/
def FailingApart (deployment : Deployment) (name jobID : String) (pair : State × Stage × ℕ)
    (event : Event) : Prop := Failing name jobID pair event ∧ PlainKeys deployment pair.1 event

instance (pair : State × Stage × ℕ) (event : Event) :
    Decidable (FailingApart deployment name jobID pair event) :=
  inferInstanceAs (Decidable (_ ∧ _))

/-- A job whose handler always fails is run exactly as often as the options of its type allow.
Until then it is in one place, with as many failures as runs, after its last run it is dead,
or nowhere if its type skips the dead jobs. A requeuer that finds it due moves it to its queue,
a worker that receives it runs it, and every run ends with the job on the retry set, or where
it belongs after its last run. -/
theorem max_fails_exact {stage : Stage} (registers : Registers deployment name options)
    (bounded : options.attempts ≤ 10 ^ 14)
    (reached : (counting deployment jobID).Reachable (FailingApart deployment name jobID)
      (state, stage, runs)) :
    runs ≤ options.attempts ∧
      (runs = options.attempts → state.redis.JobAt jobID (placeAfter options runs) runs) ∧
      (stage ≠ .fresh → runs < options.attempts →
        ∃ place, place.waits name ∧ state.redis.JobAt jobID (some place) runs) ∧
      ∀ id next,
        (∀ key now raw,
          FailingApart deployment name jobID (state, stage, runs) (.pool id (.requeue key now)) →
          step deployment state (.pool id (.requeue key now)) = some next →
          ((state.redis.zset key).upTo now.toInt).head? = some raw → raw.hasID jobID →
          next.redis.JobAt jobID (some (.list (.jobs name))) runs) ∧
        (∀ index order raw source target,
          PlainKeys deployment state (.pool id (.worker index (.fetch order .ok))) →
          step deployment state (.pool id (.worker index (.fetch order .ok))) = some next →
          (state.redis.redisLuaFetchJob id order).2 = some (raw, source, target) →
          raw.hasID jobID → ∃ job, runningJob? next id index = some job ∧ job.id = jobID) ∧
        ∀ index finish reply job,
          FailingApart deployment name jobID (state, stage, runs)
            (.pool id (.worker index (.finish finish reply))) →
          step deployment state (.pool id (.worker index (.finish finish reply))) = some next →
          runningJob? state id index = some job → job.id = jobID →
          next.redis.JobAt jobID (placeAfter options (runs + 1)) (runs + 1) := by
  have reached := reached.mono fun _ _ both => both.1
  have attempted := Attempted.reachable registers bounded reached
  have identity : (identityContract deployment jobID).Everywhere state :=
    (identityContract deployment jobID).reachable
      (TransitionSystem.Reachable.of_monitored (reached.mono fun _ _ all => all.1))
  have onward : ∀ {event next}, Failing name jobID (state, stage, runs) event →
      step deployment state event = some next →
      Attempted registers jobID next (stage.observe deployment jobID state event next,
        if event.completes jobID state then runs + 1 else runs) := fun failing stepped =>
    Attempted.reachable registers bounded
      (.step reached failing (congrArg (Option.map _) stepped))
  refine ⟨?_, ?_, ?_, fun id next => ⟨?_, ?_, ?_⟩⟩
  · cases attempted.standing with
    | fresh => exact Nat.zero_le _
    | waiting _ below => exact below.le
    | dead | dropped => exact le_rfl
  · rintro rfl
    exact attempted.jobAt attempted.placed_last
  · intro begun below
    obtain ⟨place, waits, placed⟩ := attempted.placed_waiting identity begun below
    exact ⟨place, waits, attempted.jobAt placed⟩
  · intro key now raw failing stepped due own
    have later := onward failing.1 stepped
    exact later.jobAt (later.waiting (attempted.requeued due own stepped) (by simp)).1
  · intro index order raw source target _ stepped answer own
    exact attempted.fetched answer own stepped
  · intro index finish reply job failing stepped running own
    have later := onward failing.1 stepped
    rw [if_pos (completes_iff.mpr ⟨id, index, finish, reply, job, rfl, running, own⟩)] at later
    have crashed : (system deployment).Reachable ReapsCrashed state :=
      TransitionSystem.Reachable.of_monitored (reached.mono fun _ _ all => all.2.1)
    exact later.jobAt (attempted.finished bounded (Holding.reachable (fun _ _ all => all) crashed)
      failing.1 running own stepped).2.2.1

/-- The job of the following runs after some failures. -/
def failingJob (fails : Int64) : Job :=
  { Enqueuer.plainJob "send" "1" (2 * fails) none with
    fails := fails, lastErr := if fails = 0 then "" else "boom",
    failedAt := if fails = 0 then 0 else 2 * fails - 1 }

/-- A failed run of the job. -/
def oneAttempt (fails : Int64) : List Event :=
  [.pool "A" (.worker 0 (.fetch ["send"] .ok)),
    .pool "A" (.worker 0 (.finish
      { after := failingJob fails, marshals := true, error := some "boom",
        failedAt := 2 * fails + 1, now := 2 * fails + 1, backoff := 1 } .ok))]

/-- The job is enqueued and retried some times. -/
def manyAttempts (retries : ℕ) : List Event :=
  boot ["send"] "A" ++ [.enqueuer (.enqueue "send" "1" 0 none)] ++ oneAttempt 0 ++
    (List.range' 1 retries).flatMap fun count =>
      .pool "A" (.requeue .retry (2 * Int64.ofNat count)) :: oneAttempt (Int64.ofNat count)

theorem registers_single : Registers single "send" { maxConcurrency := 1 } :=
  ⟨{ priority := 1, maxFails := 4, maxConcurrency := 1 }, rfl, fun _ => rfl⟩

theorem max_fails_exact_default :
    ∃ state stage, (counting single "1").Reachable (FailingApart single "send" "1")
        (state, stage, 4) ∧
      state.redis.JobAt "1" (some (.zset .dead)) 4 := by
  have run : ∃ pair, (counting single "1").Reachable (FailingApart single "send" "1") pair ∧
      pair.2.2 = 4 :=
    TransitionSystem.Reachable.exists_of_run (manyAttempts 3)
      (TransitionSystem.initial_monitored initial_emptyState) (by decide +kernel)
  obtain ⟨⟨state, stage, runs⟩, reached, rfl⟩ := run
  exact ⟨state, stage, reached, (max_fails_exact registers_single (by decide) reached).2.1 rfl⟩

/-- A deployment whose only job type has a number of runs beyond the signed integers. -/
def immense : Deployment where
  ns := "work"
  pool _ :=
    { jobTypes := [{ name := "send", priority := 1, maxFails := 9223372036854775809 }]
      distinct := by decide
      concurrency := 1, workerIDs := ["w"], host := "host", pid := 1 }

theorem dead_after_first_run :
    Registers immense "send" { maxFails := 9223372036854775809 } ∧
      ∃ state stage, (counting immense "1").Reachable (Failing "send" "1") (state, stage, 1) ∧
        (state.redis.zset .dead).members = [.json (failingJob 0 |>.failed "boom" 1).serialize] := by
  refine ⟨⟨{ priority := 1, maxFails := 9223372036854775809 }, by decide +kernel, fun _ => rfl⟩, ?_⟩
  have run : ∃ pair, (counting immense "1").Reachable (Failing "send" "1") pair ∧
      pair.2.2 = 1 ∧ (pair.1.redis.zset .dead).members =
        [.json (failingJob 0 |>.failed "boom" 1).serialize] :=
    TransitionSystem.Reachable.exists_of_run (manyAttempts 0)
      (TransitionSystem.initial_monitored initial_emptyState) (by decide +kernel)
  obtain ⟨⟨state, stage, runs⟩, reached, rfl, dead⟩ := run
  exact ⟨state, stage, reached, dead⟩

end System
