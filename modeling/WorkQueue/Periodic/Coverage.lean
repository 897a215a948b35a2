import WorkQueue.Foundation.Schedule
import WorkQueue.Periodic.Once

/-! # No occurrence of a periodic job is missed

An enqueuer that wakes up looks further ahead than it sleeps, so that every occurrence of its
jobs is scheduled before its time. It may skip its turn because another enqueuer has just
recorded the time, and then it relies on that enqueuer having scheduled its jobs. If the
enqueuer that skips registers only jobs of the one it relies on, no occurrence is missed
(`Periodic.no_occurrence_missed`). The recorded time does not say whose jobs were enqueued, and
a job that only one pool registers may not be scheduled at all.
-/

namespace Pool

/-- A step keeps the periodic enqueuer of a pool running or not, unless it launches the pool,
crashes it or completes its stop. -/
theorem Case.periodicAlive {ns : String} {config : PoolConfig} {poolID : PoolID}
    {redis next : Store} {pool pool' : Pool} {event : Event}
    (moved : Case ns config poolID redis pool event next pool') :
    event = .launch ∧ pool.phase = .starting [] ∨ event ≠ .launch ∧ (pool'.phase = .crashed ∨
      event = .advance ∧ pool.phase = .stoppingPeriodic ∧ pool'.phase = .stopped ∨
      pool'.phase.periodicAlive = pool.phase.periodicAlive ∧
        (pool.phase = .crashed → pool'.phase = .crashed)) := by
  cases moved with
  | launched phase => exact .inl ⟨rfl, phase⟩
  | started phase =>
      rcases phase with phase | phase <;> simp [phase, Phase.periodicAlive, Phase.reaperAlive]
  | returned phase =>
      simp only [apply_ite Pool.phase]
      split <;> simp [phase, Phase.periodicAlive, Phase.reaperAlive]
  | @advanced phase advanced =>
      cases before : pool.phase with
      | stoppingRetrier | stoppingScheduler | stoppingReaper | stoppingPeriodic =>
          simp only [before, Phase.advance, Option.some.injEq] at advanced
          subst advanced
          simp [Phase.periodicAlive, Phase.reaperAlive]
      | _ => simp [before, Phase.advance] at advanced
  | crashed => exact .inr ⟨nofun, .inl rfl⟩
  | capped phase | stopping phase | halted phase | emptied phase | unreturned phase
  | cleaned phase | removed phase | forgotten phase =>
      simp [phase, Phase.periodicAlive, Phase.reaperAlive]
  | _ => exact .inr ⟨nofun, .inr (.inr ⟨rfl, id⟩)⟩

end Pool

namespace Periodic

open Schedule

/-- The scheduled jobs right after an enqueuer has added to them, and when that was. -/
structure Addition where
  time : ℤ
  scheduled : List (ℤ × RawJSON)
  deriving DecidableEq

/-- The first and the latest time an enqueuer woke up. -/
structure Wakes where
  first : ℤ
  latest : ℤ
  deriving DecidableEq

/-- A record of a run: when the enqueuers woke up since their pools were launched, which pool
recorded the time last, and what was scheduled after each addition. -/
structure Log where
  wakes : PoolID → Option Wakes
  recorder : Option PoolID
  added : List Addition

namespace Log

def empty : Log := ⟨fun _ => none, none, []⟩

/-- A pool that is launched has not woken up yet. -/
def launch (log : Log) : System.Event → Log
  | .pool id .launch => { log with wakes := Function.update log.wakes id none }
  | _ => log

/-- The scheduled jobs are noted. -/
def add (log : Log) (addition : Addition) : Log := { log with added := addition :: log.added }

/-- Write the record. The scheduled jobs are read from the store after the command. -/
def observe (log : Log) (state : Whole) (event : WholeEvent) (next : Whole) : Log :=
  match event with
  | .base event => log.launch event
  | .periodic id (.check _) =>
      let now := state.clock.toInt
      let first := ((log.wakes id).map Wakes.first).getD now
      { log with wakes := Function.update log.wakes id (some ⟨first, now⟩) }
  | .periodic _ (.zadd reply) =>
      match reply with
      | .failed => log
      | _ => log.add ⟨next.clock.toInt, (next.base.redis.zset .scheduled).entries⟩
  | .periodic id (.finish reply) =>
      match reply with
      | .failed => log
      | _ => { log with recorder := some id }
  | _ => log

section Launch

variable {log : Log} {event : System.Event}

theorem added_launch : (log.launch event).added = log.added := by
  unfold launch
  split <;> rfl

theorem recorder_launch : (log.launch event).recorder = log.recorder := by
  unfold launch
  split <;> rfl

theorem wakes_launch_self {id : PoolID} : (log.launch (.pool id .launch)).wakes id = none :=
  Function.update_self _ _ _

theorem wakes_launch {id : PoolID} (other : event ≠ .pool id .launch) :
    (log.launch event).wakes id = log.wakes id := by
  unfold launch
  split
  · refine Function.update_of_ne (fun same => other ?_) _ _
    rw [same]
  · rfl

end Launch

/-- The entry of an occurrence among the scheduled jobs. -/
def entry (job : PeriodicJob) (epoch : Int64) : ℤ × RawJSON :=
  (epoch.toInt, payload job.jobName job.spec epoch)

/-- The occurrence of a job at a time was scheduled no later than that. -/
def OnTime (log : Log) (job : PeriodicJob) (time : ℤ) : Prop :=
  ∃ addition ∈ log.added, entry job (Int64.ofInt time) ∈ addition.scheduled ∧
    0 ≤ addition.time ∧ addition.time ≤ time

theorem OnTime.mono {log more : Log} (kept : ∀ addition ∈ log.added, addition ∈ more.added)
    {job : PeriodicJob} {time : ℤ} (added : log.OnTime job time) : more.OnTime job time := by
  obtain ⟨addition, recorded, facts⟩ := added
  exact ⟨addition, kept addition recorded, facts⟩

end Log

theorem mem_scheduled_occurrence (ns : String) (redis : Store) (job : PeriodicJob)
    (epoch : Int64) : Log.entry job epoch ∈ ((Enqueuer.execute ns redis
      (occurrence job.jobName job.spec epoch)).zset .scheduled).entries := by
  rw [occurrence, Enqueuer.execute, Store.zset_zadd_self, SortedSet.mem_entries_add]
  exact .inl rfl

/-- The reply to a command of an enqueuer. -/
def Event.reply : Event → Reply
  | .check reply | .zadd reply | .finish reply => reply
  | .begin => .ok

/-- Only the given pools have enqueuers, and their commands succeed. Time passes only while the
enqueuers are asleep, and no further than they sleep. -/
def Punctual (ids : List PoolID) (pair : Whole × Log) : WholeEvent → Prop
  | .tick now => ∀ id ∈ ids, (pair.1.base.pools id).phase.periodicAlive →
      (pair.1.enqueuers id).isIdle ∧
        ∀ wakes ∈ pair.2.wakes id, now.toInt ≤ wakes.latest + (sleep + jitter).toInt
  | .periodic id event => id ∈ ids ∧ event.reply = .ok
  | .base _ => True

instance (ids : List PoolID) (pair : Whole × Log) (event : WholeEvent) :
    Decidable (Punctual ids pair event) := by
  unfold Punctual
  split <;> infer_instance

/-- An enqueuer that skips its turn registers only jobs of the pool that recorded the time. -/
def Shared (deployment : PeriodicDeployment) (pair : Whole × Log) : WholeEvent → Prop
  | .periodic id (.check _) => shouldEnqueue pair.1.last pair.1.clock = false →
      ∀ other ∈ pair.2.recorder, ∀ job ∈ deployment.periodicJobs id,
        job ∈ deployment.periodicJobs other
  | _ => True

instance (deployment : PeriodicDeployment) (pair : Whole × Log) (event : WholeEvent) :
    Decidable (Shared deployment pair event) := by
  unfold Shared
  split <;> infer_instance

/-- The occurrences of some jobs between two times were added on time. -/
def AllCovered (schedules : Schedules) (log : Log) (jobs : List PeriodicJob) (start stop : ℤ) :
    Prop :=
  ∀ job ∈ jobs, Covered (schedules job.spec) (log.OnTime job) start stop

/-- What an enqueuer that has woken up has added. -/
def Progress (schedules : Schedules) (log : Log) (jobs : List PeriodicJob) (clock : ℤ) :
    State → Prop
  | .idle => False
  | .due => True
  | .enqueuing now job rest t => now.toInt = clock ∧ clock < t ∧
      Covered (schedules job.spec) (log.OnTime job) clock t ∧
      ∃ done, jobs = done ++ job :: rest ∧
        AllCovered schedules log done clock (clock + horizon)
  | .finishing now => now.toInt = clock ∧ AllCovered schedules log jobs clock (clock + horizon)

section Search

variable {schedules : Schedules} {log : Log} {jobs : List PeriodicJob}

theorem AllCovered.nil {start stop : ℤ} : AllCovered schedules log [] start stop := by
  simp [AllCovered]

theorem AllCovered.mono {more : Log} {start stop : ℤ}
    (covered : AllCovered schedules log jobs start stop)
    (kept : ∀ addition ∈ log.added, addition ∈ more.added) :
    AllCovered schedules more jobs start stop := by
  intro job member
  exact (covered job member).mono fun time => Log.OnTime.mono kept

theorem AllCovered.snoc {job : PeriodicJob} {done : List PeriodicJob} {start stop : ℤ}
    (covered : AllCovered schedules log done start stop)
    (last : Covered (schedules job.spec) (log.OnTime job) start stop) :
    AllCovered schedules log (done ++ [job]) start stop := by
  intro other member
  rcases List.mem_append.mp member with before | same
  · exact covered other before
  · cases List.mem_singleton.mp same
    exact last

/-- Moving on from the occurrences of a job keeps track of what was added. -/
theorem progress_proceed (lawful : ∀ job ∈ jobs, Schedule (schedules job.spec)) {now : Int64}
    {rest : List PeriodicJob} :
    ∀ {done : List PeriodicJob} {job : PeriodicJob} {t : ℤ}, jobs = done ++ job :: rest →
      now.toInt < t → Covered (schedules job.spec) (log.OnTime job) now.toInt t →
      AllCovered schedules log done now.toInt (now.toInt + horizon) →
      Progress schedules log jobs now.toInt (proceed schedules now job rest t) := by
  induction rest with
  | nil =>
      intro done job t listed later covered earlier
      rw [proceed]
      split
      · exact ⟨rfl, later, covered, done, listed, earlier⟩
      · next beyond =>
          refine ⟨rfl, ?_⟩
          rw [listed]
          exact earlier.snoc (covered.shorten (not_lt.mp beyond))
  | cons other rest ih =>
      intro done job t listed later covered earlier
      rw [proceed]
      split
      · exact ⟨rfl, later, covered, done, listed, earlier⟩
      · next beyond =>
          have schedule := lawful other (by simp [listed])
          refine ih ?_ (schedule.after _) (covered_next schedule)
            (earlier.snoc (covered.shorten (not_lt.mp beyond)))
          rw [listed, List.append_assoc, List.singleton_append]

theorem progress_begin (lawful : ∀ job ∈ jobs, Schedule (schedules job.spec)) (now : Int64) :
    Progress schedules log jobs now.toInt (begin schedules now jobs) := by
  cases jobs with
  | nil => exact ⟨rfl, .nil⟩
  | cons job rest =>
      have schedule := lawful job List.mem_cons_self
      exact progress_proceed lawful (List.nil_append _).symm (schedule.after _)
        (covered_next schedule) .nil

/-- Adding the occurrence that comes next. -/
theorem progress_added (lawful : ∀ job ∈ jobs, Schedule (schedules job.spec)) {now : Int64}
    {job : PeriodicJob} {rest : List PeriodicJob} {t clock : ℤ} (nonnegative : 0 ≤ clock)
    {scheduled : List (ℤ × RawJSON)} (added : Log.entry job (Int64.ofInt t) ∈ scheduled)
    (progress : Progress schedules log jobs clock (.enqueuing now job rest t)) :
    Progress schedules (log.add ⟨clock, scheduled⟩) jobs clock
      (proceed schedules now job rest (schedules job.spec t)) := by
  obtain ⟨rfl, later, covered, done, listed, earlier⟩ := progress
  have schedule := lawful job (by simp [listed])
  have kept : ∀ addition ∈ log.added, addition ∈ (log.add ⟨now.toInt, scheduled⟩).added :=
    fun _ recorded => List.mem_cons_of_mem _ recorded
  refine progress_proceed lawful listed (later.trans (schedule.after t)) ?_ (earlier.mono kept)
  exact Covered.extend schedule (covered.mono fun time => Log.OnTime.mono kept)
    ⟨_, List.mem_cons_self, added, nonnegative, later.le⟩

end Search

/-- What was added for a pool: while its enqueuer sleeps, everything until it has to wake up
again, and otherwise everything until now. -/
def Standing (schedules : Schedules) (log : Log) (jobs : List PeriodicJob) (clock : ℤ)
    (wakes : Option Wakes) : State → Prop
  | .idle => ∀ times ∈ wakes, times.latest ≤ clock ∧
      clock ≤ times.latest + (sleep + jitter).toInt ∧
      AllCovered schedules log jobs times.first (times.latest + (sleep + jitter).toInt + 1)
  | state => (∃ first, wakes = some ⟨first, clock⟩ ∧
      AllCovered schedules log jobs first (clock + 1)) ∧
      Progress schedules log jobs clock state

/-- The invariant of punctual runs. -/
structure Covering (deployment : PeriodicDeployment) (ids : List PoolID) (state : Whole)
    (log : Log) : Prop where
  clock : 0 ≤ state.clock.toInt
  resting : ∀ id, (state.base.pools id).phase.periodicAlive = false →
    (state.base.pools id).phase = .crashed ∨ state.enqueuers id = .idle
  recorded : ∀ last ∈ state.last, last.toInt ≤ state.clock.toInt ∧
    ∃ other, log.recorder = some other ∧
      AllCovered deployment.schedules log (deployment.periodicJobs other) last.toInt
        (last.toInt + horizon)
  pools : ∀ id ∈ ids, (state.base.pools id).phase.periodicAlive →
    Standing deployment.schedules log (deployment.periodicJobs id) state.clock.toInt
      (log.wakes id) (state.enqueuers id)

section Monotone

variable {schedules : Schedules} {log more : Log} {jobs : List PeriodicJob} {clock : ℤ}
  {wakes : Option Wakes} {state : State}

theorem Progress.mono (progress : Progress schedules log jobs clock state)
    (kept : ∀ addition ∈ log.added, addition ∈ more.added) :
    Progress schedules more jobs clock state := by
  cases state with
  | idle | due => exact progress
  | enqueuing now job rest t =>
      obtain ⟨same, later, covered, done, listed, earlier⟩ := progress
      exact ⟨same, later, covered.mono fun time => Log.OnTime.mono kept, done, listed,
        earlier.mono kept⟩
  | finishing now => exact ⟨progress.1, progress.2.mono kept⟩

theorem standing_of_progress {first : ℤ} (woken : wakes = some ⟨first, clock⟩)
    (covered : AllCovered schedules log jobs first (clock + 1))
    (progress : Progress schedules log jobs clock state) :
    Standing schedules log jobs clock wakes state := by
  cases state with
  | idle => exact progress.elim
  | due | enqueuing now job rest t | finishing now => exact ⟨⟨first, woken, covered⟩, progress⟩

theorem sleep_add_jitter : (sleep + jitter).toInt = 150 := by decide

/-- An enqueuer may go to sleep when the horizon of a recent time is covered. -/
theorem standing_of_ahead {first start : ℤ} (woken : wakes = some ⟨first, clock⟩)
    (covered : AllCovered schedules log jobs first (clock + 1))
    (ahead : AllCovered schedules log jobs start (start + horizon)) (past : start ≤ clock)
    (recent : clock ≤ start + 2) : Standing schedules log jobs clock wakes .idle := by
  intro times same
  cases woken.symm.trans same
  simp only [sleep_add_jitter]
  refine ⟨le_rfl, by omega, fun job registered => ?_⟩
  refine (covered job registered).join ((ahead job registered).shorten ?_) (by omega)
  rw [horizon]
  omega

theorem Standing.mono (standing : Standing schedules log jobs clock wakes state)
    (kept : ∀ addition ∈ log.added, addition ∈ more.added) :
    Standing schedules more jobs clock wakes state := by
  cases state with
  | idle =>
      intro times woken
      obtain ⟨past, soon, covered⟩ := standing times woken
      exact ⟨past, soon, covered.mono kept⟩
  | due | enqueuing now job rest t | finishing now =>
      obtain ⟨⟨first, woken, covered⟩, progress⟩ := standing
      exact ⟨⟨first, woken, covered.mono kept⟩, progress.mono kept⟩

end Monotone

theorem State.eq_idle {state : State} (asleep : state.isIdle) : state = .idle := by
  cases state with
  | idle => rfl
  | due | enqueuing now job rest t | finishing now => cases asleep

/-- An enqueuer skips its turn only right after the recorded time. -/
theorem recent_of_skipped {last : Option Int64} {now : Int64} (nonnegative : 0 ≤ now.toInt)
    (skipped : shouldEnqueue last now = false) :
    ∃ recorded, last = some recorded ∧ now.toInt ≤ recorded.toInt + 2 := by
  cases last with
  | none => cases skipped
  | some recorded =>
      refine ⟨recorded, rfl, ?_⟩
      have later := of_decide_eq_false skipped
      have difference : (now - sleep / 60).toInt = now.toInt - 2 := by
        have bound := now.toInt_lt
        rw [Int64.toInt_sub]
        have two : (sleep / 60).toInt = 2 := by decide
        rw [two]
        exact Int.bmod_eq_of_le (by omega) (by omega)
      rw [Int64.lt_iff_toInt_lt, difference] at later
      omega

namespace Covering

variable {deployment : PeriodicDeployment} {ids : List PoolID} {state : Whole} {log : Log}

theorem idle_of_starting (covering : Covering deployment ids state log) {id : PoolID}
    {remaining : List String} (phase : (state.base.pools id).phase = .starting remaining) :
    state.enqueuers id = .idle := by
  refine (covering.resting id ?_).resolve_left fun crashed => ?_
  · rw [phase]
    rfl
  · rw [phase] at crashed
    cases crashed

/-- A step of the system leaves the enqueuers alone. A pool that is launched has not woken up
yet, and one that completes its stop has an enqueuer that sleeps. -/
theorem base_step (covering : Covering deployment ids state log) {event : System.Event}
    {base : System.State} (may : mayStep state event)
    (moved : System.step deployment.toDeployment state.base event = some base) :
    Covering deployment ids { state with base := base } (log.launch event) := by
  have kept : ∀ addition ∈ log.added, addition ∈ (log.launch event).added :=
    fun _ member => Log.added_launch.symm ▸ member
  refine ⟨covering.clock, fun id dead => ?_, fun last recorded => ?_, fun id member alive => ?_⟩
  · rcases System.step_pool_cases moved id with ⟨-, same⟩ | ⟨poolEvent, rfl, pool⟩
    · simp only [same] at dead ⊢
      exact covering.resting id dead
    rcases pool.periodicAlive with ⟨rfl, phase⟩ | ⟨-, crashed | ⟨rfl, phase, -⟩ | ⟨same, stays⟩⟩
    · exact .inr (covering.idle_of_starting phase)
    · exact .inl crashed
    · refine .inr ?_
      simp only [mayStep, phase, ne_eq, not_true_eq_false, decide_false, Bool.false_or] at may
      exact State.eq_idle may
    · exact (covering.resting id (same.symm.trans dead)).imp_left stays
  · obtain ⟨past, other, recorder, covered⟩ := covering.recorded last recorded
    exact ⟨past, other, Log.recorder_launch.trans recorder, covered.mono kept⟩
  · rcases System.step_pool_cases moved id with ⟨other, same⟩ | ⟨poolEvent, rfl, pool⟩
    · simp only [same] at alive
      rw [Log.wakes_launch (other _)]
      exact (covering.pools id member alive).mono kept
    rcases pool.periodicAlive with
      ⟨rfl, phase⟩ | ⟨running, crashed | ⟨-, -, stopped⟩ | ⟨same, -⟩⟩
    · rw [Log.wakes_launch_self]
      simp only [covering.idle_of_starting phase]
      exact nofun
    · simp only [crashed] at alive
      cases alive
    · simp only [stopped] at alive
      cases alive
    · rw [Log.wakes_launch (by simpa using running)]
      exact (covering.pools id member (same.symm.trans alive)).mono kept

/-- Time passes only while the enqueuers sleep. -/
theorem tick (covering : Covering deployment ids state log) {now : Int64}
    (later : state.clock ≤ now) (punctual : Punctual ids (state, log) (.tick now)) :
    Covering deployment ids { state with clock := now } log := by
  have passed : state.clock.toInt ≤ now.toInt := Int64.le_iff_toInt_le.mp later
  refine ⟨covering.clock.trans passed, covering.resting, fun last recorded => ?_,
    fun id member alive => ?_⟩
  · obtain ⟨past, covered⟩ := covering.recorded last recorded
    exact ⟨past.trans passed, covered⟩
  · obtain ⟨asleep, soon⟩ := punctual id member alive
    have idle : state.enqueuers id = .idle := State.eq_idle asleep
    have standing := covering.pools id member alive
    simp only [idle] at standing ⊢
    intro times woken
    obtain ⟨past, -, covered⟩ := standing times woken
    exact ⟨past.trans passed, soon times woken, covered⟩

section Enqueuer

variable {id : PoolID} {base : System.State} {last : Option Int64} {enqueuer : State} {after : Log}

/-- A step of an enqueuer concerns its own pool and the recorded time. -/
theorem update (covering : Covering deployment ids state log)
    (alive : (state.base.pools id).phase.periodicAlive) (pools : base.pools = state.base.pools)
    (kept : ∀ addition ∈ log.added, addition ∈ after.added)
    (others : ∀ other, other ≠ id → after.wakes other = log.wakes other)
    (recorded : ∀ time ∈ last, time.toInt ≤ state.clock.toInt ∧
      ∃ other, after.recorder = some other ∧
        AllCovered deployment.schedules after (deployment.periodicJobs other) time.toInt
          (time.toInt + horizon))
    (standing : Standing deployment.schedules after (deployment.periodicJobs id)
      state.clock.toInt (after.wakes id) enqueuer) :
    Covering deployment ids ⟨base, state.clock, last, Function.update state.enqueuers id enqueuer⟩
      after := by
  refine ⟨covering.clock, fun other dead => ?_, recorded, fun other member running => ?_⟩
  · simp only [pools] at dead ⊢
    have distinct : other ≠ id := by
      rintro rfl
      rw [alive] at dead
      cases dead
    rw [Function.update_of_ne distinct]
    exact covering.resting other dead
  · simp only [pools] at running
    by_cases same : other = id
    · subst same
      simp only [Function.update_self]
      exact standing
    · simp only [Function.update_of_ne same, others other same]
      exact (covering.pools other member running).mono kept

/-- What is recorded stays covered. -/
theorem recorded_mono (covering : Covering deployment ids state log)
    (kept : ∀ addition ∈ log.added, addition ∈ after.added)
    (recorder : after.recorder = log.recorder) :
    ∀ time ∈ state.last, time.toInt ≤ state.clock.toInt ∧
      ∃ other, after.recorder = some other ∧
        AllCovered deployment.schedules after (deployment.periodicJobs other) time.toInt
          (time.toInt + horizon) := by
  intro time stored
  obtain ⟨past, other, recorded, covered⟩ := covering.recorded time stored
  exact ⟨past, other, recorder.trans recorded, covered.mono kept⟩

/-- When an enqueuer wakes up, all occurrences since it first did are covered up to the present
time. -/
theorem covered_at_wake (covering : Covering deployment ids state log) (member : id ∈ ids)
    (alive : (state.base.pools id).phase.periodicAlive) (idle : state.enqueuers id = .idle) :
    AllCovered deployment.schedules log (deployment.periodicJobs id)
      (((log.wakes id).map Wakes.first).getD state.clock.toInt) (state.clock.toInt + 1) := by
  have standing := covering.pools id member alive
  rw [idle] at standing
  cases woken : log.wakes id with
  | none =>
      intro job _ time _ later earlier
      simp only [Option.map_none, Option.getD_none] at later
      omega
  | some times =>
      obtain ⟨-, soon, covered⟩ := standing times woken
      intro job registered
      exact (covered job registered).shorten (by omega)

theorem enqueuer_step (covering : Covering deployment ids state log)
    (lawful : ∀ id, ∀ job ∈ deployment.periodicJobs id, Schedule (deployment.schedules job.spec))
    {event : Event} {call : Option Enqueuer.Call} {after : Whole}
    (reached : after =
      { base := { state.base with
          redis := match call with
            | none => state.base.redis
            | some call => Enqueuer.execute deployment.ns state.base.redis call }
        clock := state.clock
        last := last
        enqueuers := Function.update state.enqueuers id enqueuer })
    (alive : (state.base.pools id).phase.periodicAlive)
    (moved : Case deployment.schedules (deployment.periodicJobs id) state.last state.clock
      (state.enqueuers id) event call last enqueuer)
    (punctual : Punctual ids (state, log) (.periodic id event))
    (shared : Shared deployment (state, log) (.periodic id event)) :
    Covering deployment ids after (log.observe state (.periodic id event) after) := by
  subst reached
  obtain ⟨member, answered⟩ := punctual
  have standing := covering.pools id member alive
  have same : ∀ addition ∈ log.added, addition ∈ log.added := fun _ recorded => recorded
  generalize here : state.enqueuers id = current at moved
  cases moved with
  | skipped recent =>
      refine covering.update alive rfl same
        (fun other distinct => Function.update_of_ne distinct _ _)
        (covering.recorded_mono same rfl) ?_
      have covered := covering.covered_at_wake member alive here
      obtain ⟨time, stored, close⟩ := recent_of_skipped covering.clock recent
      obtain ⟨past, other, recorder, ahead⟩ := covering.recorded time stored
      exact standing_of_ahead (Function.update_self _ _ _) covered
        (fun job registered => ahead job (shared recent other recorder job registered)) past close
  | woken =>
      refine covering.update alive rfl same
        (fun other distinct => Function.update_of_ne distinct _ _)
        (covering.recorded_mono same rfl) ?_
      exact standing_of_progress (Function.update_self _ _ _)
        (covering.covered_at_wake member alive here) trivial
  | begun =>
      refine covering.update alive rfl same (fun _ _ => rfl)
        (covering.recorded_mono same rfl) ?_
      rw [here] at standing
      obtain ⟨⟨first, woken, covered⟩, -⟩ := standing
      exact standing_of_progress woken covered (progress_begin (lawful id) state.clock)
  | added =>
      rw [here] at standing
      obtain ⟨⟨first, woken, covered⟩, progress⟩ := standing
      refine covering.update alive rfl (fun _ recorded => List.mem_cons_of_mem _ recorded)
        (fun _ _ => rfl)
        (covering.recorded_mono (fun _ recorded => List.mem_cons_of_mem _ recorded) rfl) ?_
      exact standing_of_progress woken
        (covered.mono fun _ recorded => List.mem_cons_of_mem _ recorded)
        (progress_added (lawful id) covering.clock (mem_scheduled_occurrence deployment.ns _ _ _)
          progress)
  | unanswered | failed | unrecorded => cases answered
  | @recorded now reply =>
      rw [here] at standing
      obtain ⟨⟨first, woken, covered⟩, read, ahead⟩ := standing
      cases answered
      refine covering.update alive rfl same (fun _ _ => rfl) ?_ ?_
      · rintro _ ⟨⟩
        exact ⟨read.le, id, rfl, read ▸ ahead⟩
      · exact standing_of_ahead woken covered ahead le_rfl (by omega)

end Enqueuer

theorem step (covering : Covering deployment ids state log)
    (lawful : ∀ id, ∀ job ∈ deployment.periodicJobs id, Schedule (deployment.schedules job.spec))
    {event : WholeEvent} {next : Whole} (punctual : Punctual ids (state, log) event)
    (shared : Shared deployment (state, log) event)
    (stepped : wholeStep deployment state event = some next) :
    Covering deployment ids next (log.observe state event next) := by
  cases wholeStep_cases stepped with
  | base may moved => exact covering.base_step may moved
  | passed later => exact covering.tick later punctual
  | periodic alive moved =>
      exact covering.enqueuer_step lawful rfl alive moved punctual shared

/-- All occurrences up to the present time are covered. -/
theorem covered_until_now (covering : Covering deployment ids state log) {id : PoolID}
    (member : id ∈ ids) (alive : (state.base.pools id).phase.periodicAlive) {times : Wakes}
    (woken : log.wakes id = some times) :
    AllCovered deployment.schedules log (deployment.periodicJobs id) times.first
      (state.clock.toInt + 1) := by
  have standing := covering.pools id member alive
  cases here : state.enqueuers id with
  | idle =>
      rw [here] at standing
      obtain ⟨-, soon, covered⟩ := standing times woken
      exact fun job registered => (covered job registered).shorten (by omega)
  | due | enqueuing now job rest t | finishing now =>
      rw [here] at standing
      obtain ⟨⟨first, same, covered⟩, -⟩ := standing
      cases woken.symm.trans same
      exact covered

end Covering

theorem covering_of_begun {deployment : PeriodicDeployment} {ids : List PoolID} {state : Whole}
    (begun : Begun state) : Covering deployment ids state .empty := by
  refine ⟨begun.clock, fun id _ => .inr (begun.enqueuers id), fun last recorded => ?_,
    fun id _ _ => ?_⟩
  · rw [begun.last] at recorded
    cases recorded
  · rw [begun.enqueuers id]
    exact nofun

theorem hourlyPools_lawful (id : PoolID) (job : PeriodicJob)
    (_ : job ∈ hourlyPools.periodicJobs id) : Schedule (hourlyPools.schedules job.spec) where
  after time := by
    simp only [hourlyPools]
    omega
  least time other later := by
    simp only [hourlyPools] at later ⊢
    omega

/-- **No occurrence is missed.** Where commands succeed, time passes only while the enqueuers
sleep, and an enqueuer skips its turn only in favour of a pool that registers all its jobs:
for a pool that runs, every occurrence of a job it registers that lies after the first time its
enqueuer woke up was among the scheduled jobs, with its time, after an addition no later than
that time. -/
theorem no_occurrence_missed {deployment : PeriodicDeployment} {ids : List PoolID}
    (lawful : ∀ id, ∀ job ∈ deployment.periodicJobs id, Schedule (deployment.schedules job.spec))
    {pair : Whole × Log}
    (reached : ((system deployment).monitored .empty Log.observe).Reachable
      (fun pair event => Punctual ids pair event ∧ Shared deployment pair event) pair)
    {id : PoolID} (member : id ∈ ids) (alive : (pair.1.base.pools id).phase.periodicAlive)
    {times : Wakes} (woken : pair.2.wakes id = some times) {job : PeriodicJob}
    (registered : job ∈ deployment.periodicJobs id) {time : ℤ}
    (occurs : Occurrence (deployment.schedules job.spec) time) (later : times.first < time)
    (due : time ≤ pair.1.clock.toInt) :
    ∃ addition ∈ pair.2.added, addition.time ≤ time ∧
      (time, payload job.jobName job.spec (Int64.ofInt time)) ∈ addition.scheduled := by
  have covering : Covering deployment ids pair.1 pair.2 := by
    refine reached.monitored_invariant (Covering deployment ids) ?_ ?_
    · intro state begun
      exact covering_of_begun begun
    · intro source memory event target _ covering within stepped
      exact covering.step lawful within.1 within.2 stepped
  obtain ⟨addition, recorded, scheduled, nonnegative, early⟩ :=
    covering.covered_until_now member alive woken job registered time occurs later (by omega)
  refine ⟨addition, recorded, early, ?_⟩
  have bound := pair.1.clock.toInt_lt
  rw [Log.entry, Int64.toInt_ofInt_of_le (by omega) (by omega)] at scheduled
  exact scheduled

theorem no_occurrence_missed_shared_job :
    ∃ pair, ((system hourlyPools).monitored .empty Log.observe).Reachable
        (fun pair event => Punctual ["A", "B"] pair event ∧ Shared hourlyPools pair event) pair ∧
      pair.2.wakes "B" = some ⟨3501, 3501⟩ ∧
      ∃ addition ∈ pair.2.added, addition.time ≤ 3600 ∧
        (3600, payload "send" "0 0 * * * *" 3600) ∈ addition.scheduled := by
  have run : ∃ pair, ((system hourlyPools).monitored .empty Log.observe).Reachable
      (fun pair event => Punctual ["A", "B"] pair event ∧ Shared hourlyPools pair event) pair ∧
      (pair.1.base.pools "B").phase.periodicAlive = true ∧ pair.1.clock.toInt = 3600 ∧
      pair.2.wakes "B" = some ⟨3501, 3501⟩ :=
    TransitionSystem.Reachable.exists_of_run
      (bootBoth ++ wake "A" ++
        ([.tick 3501, .periodic "B" (.check .ok), .tick 3600] : List WholeEvent))
      (TransitionSystem.initial_monitored (begun_startAt 3500 (by decide)))
      (by decide +kernel)
  obtain ⟨pair, reached, alive, clock, woken⟩ := run
  refine ⟨pair, reached, woken, ?_⟩
  exact no_occurrence_missed hourlyPools_lawful reached (by decide) alive woken
    List.mem_cons_self ⟨0, by decide⟩ (by decide) clock.ge

/-- Pools that register a job each. -/
def ownJobs : PeriodicDeployment where
  toDeployment := System.single
  periodicJobs id := [{ jobName := "send" ++ id, spec := "0 0 * * * *" }]
  schedules _ t := (t / 3600 + 1) * 3600

/-- A pool enqueues its job and records the time. A second later the other pool wakes up and
skips its turn. The occurrence of its own job at the full hour comes while it sleeps, and has
never been scheduled. -/
theorem occurrence_missed :
    ∃ pair, ((system ownJobs).monitored .empty Log.observe).Reachable
        (fun pair event => Punctual ["A", "B"] pair event) pair ∧
      (pair.1.base.pools "B").phase = .running ∧ pair.1.clock.toInt = 3600 ∧
      pair.2.wakes "B" = some ⟨3501, 3501⟩ ∧
      (3600, payload "sendB" "0 0 * * * *" 3600) ∉
        (pair.1.base.redis.zset .scheduled).entries ∧
      ∀ addition ∈ pair.2.added,
        (3600, payload "sendB" "0 0 * * * *" 3600) ∉ addition.scheduled :=
  TransitionSystem.Reachable.exists_of_run
    (bootBoth ++ wake "A" ++
      ([.tick 3501, .periodic "B" (.check .ok), .tick 3600] : List WholeEvent))
    (TransitionSystem.initial_monitored (begun_startAt 3500 (by decide)))
    (by decide +kernel)

end Periodic
