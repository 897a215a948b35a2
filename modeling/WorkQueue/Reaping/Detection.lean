import WorkQueue.Foundation.Clock
import WorkQueue.System.Holding
import WorkQueue.System.Presence

/-! # When a silent pool is taken for dead

A pool writes the seconds of its clock into its heartbeat, and a reaper compares them with its own
clock. Beats come late, commands take time, and clocks differ. If each of these is bounded, a
reaper takes no pool for dead that has begun to beat and still does so, as long as the time between
two beats, twice the delay of a command and twice the difference of a clock are at most nine
seconds together; beyond that some pool is (`live_not_taken_iff`). Then only a pool itself empties
its lists of jobs in progress while it is alive (`live_lists_own`), and a pool that has been silent
for ten seconds and twice the difference of a clock is found by the next reaper that looks
(`silent_taken`).

Times are nanoseconds since the epoch. Pools are started once.
-/

/-- The stages after the heartbeat has been stopped. -/
def Phase.gone : Phase → Bool
  | .removingHeartbeat | .stoppingRetrier | .stoppingScheduler | .stoppingReaper
  | .stoppingPeriodic | .stopped | .crashed => true
  | .unstarted | .starting _ | .running | .stopping | .requeueing | .cleaning
  | .removingFromPools => false

/-- The stages before the heartbeat is started. -/
def Phase.unlaunched : Phase → Bool
  | .unstarted | .starting _ => true
  | .running | .stopping | .requeueing | .cleaning | .removingFromPools | .removingHeartbeat
  | .stoppingRetrier | .stoppingScheduler | .stoppingReaper | .stoppingPeriodic | .stopped
  | .crashed => false

theorem Phase.heartbeaterAlive_of_not {phase : Phase} (launched : phase.unlaunched = false)
    (present : phase.gone = false) : phase.heartbeaterAlive := by
  cases phase with
  | running | stopping | requeueing | cleaning | removingFromPools => rfl
  | unstarted | starting => cases launched
  | removingHeartbeat | stoppingRetrier | stoppingScheduler | stoppingReaper | stoppingPeriodic
  | stopped | crashed => cases present

theorem Phase.not_unlaunched {phase : Phase} (alive : phase.heartbeaterAlive) :
    phase.unlaunched = false := by
  cases phase with
  | running | stopping | requeueing | cleaning | removingFromPools => rfl
  | unstarted | starting | removingHeartbeat | stoppingRetrier | stoppingScheduler
  | stoppingReaper | stoppingPeriodic | stopped | crashed => cases alive

namespace Pool

variable {ns : String} {config : PoolConfig} {id : PoolID} {redis next : Store}
  {pool pool' : Pool} {event : Event}

/-- A pool that is started once has gone for good. -/
theorem Case.gone (moved : Case ns config id redis pool event next pool')
    (once : event = .start → pool.phase = .unstarted) (gone : pool.phase.gone) :
    pool'.phase.gone := by
  cases moved with
  | started =>
      rw [once rfl] at gone
      cases gone
  | capped phase | launched phase | stopping phase | halted phase | emptied phase
  | unreturned phase | cleaned phase | removed phase | returned phase =>
      rw [phase] at gone
      cases gone
  | advanced moved =>
      generalize pool.phase = phase at moved gone
      cases phase <;> cases moved <;> rfl
  | forgotten | crashed => rfl
  | known | worked | added | beat | requeued | reaped => exact gone

/-- A pool that is started once does not get back before its launch. -/
theorem Case.unlaunched (moved : Case ns config id redis pool event next pool')
    (once : event = .start → pool.phase = .unstarted) (unlaunched : pool'.phase.unlaunched) :
    pool.phase.unlaunched := by
  cases moved with
  | started =>
      rw [once rfl]
      rfl
  | capped phase | launched phase =>
      rw [phase]
      rfl
  | returned =>
      split at unlaunched
      · exact unlaunched
      · cases unlaunched
  | advanced moved =>
      generalize pool.phase = phase at moved
      cases phase <;> cases moved <;> cases unlaunched
  | stopping | halted | emptied | unreturned | cleaned | removed | forgotten | crashed =>
      cases unlaunched
  | known | worked | added | beat | requeued | reaped => exact unlaunched

end Pool

namespace Reaper

/-- The pools that a reaper has found with an old heartbeat, and requeues the jobs of. -/
def State.condemned : State → List PoolID
  | .idle => []
  | .scanning _ found => (found.filter fun entry => entry.2 ≠ []).map Prod.fst
  | .reading pool _ found => pool :: (found.filter fun entry => entry.2 ≠ []).map Prod.fst
  | .requeueing pool _ todo | .deleting pool _ todo =>
      pool :: (todo.filter fun entry => entry.2 ≠ []).map Prod.fst
  | .removing _ _ todo | .cleaning _ _ todo =>
      (todo.filter fun entry => entry.2 ≠ []).map Prod.fst

theorem condemned_proceed (curJobTypes : List String) (todo : List (PoolID × List String)) :
    (proceed curJobTypes todo).condemned =
      (todo.filter fun entry => entry.2 ≠ []).map Prod.fst := by
  cases todo with
  | nil => rfl
  | cons first rest =>
      by_cases known : first.2 ≠ []
      · rw [List.filter_cons_of_pos (by simpa using known)]
        simp only [proceed, known, ne_eq, not_false_eq_true, ↓reduceIte, State.condemned,
          List.map_cons]
      · rw [List.filter_cons_of_neg (by simpa using known)]
        simp only [proceed, known, ↓reduceIte, State.condemned]

/-- A reaper condemns a further pool only when it finds its heartbeat old. -/
theorem Case.condemned_subset {curJobTypes : List String} {redis next : Store}
    {before after : State} {event : Event}
    (stepped : Case curJobTypes redis before event next after) {pool : PoolID}
    (member : pool ∈ after.condemned) :
    pool ∈ before.condemned ∨ ∃ todo found now heartbeat,
      before = .scanning (pool :: todo) found ∧ event = .heartbeatAt now .ok ∧
        redis.heartbeat pool = some heartbeat ∧
        heartbeat.heartbeatAt.toInt + deadTime ≤ now.toInt := by
  cases stepped with
  | listed | aborted => exact (List.not_mem_nil member).elim
  | expired =>
      simp only [State.condemned, List.filter_append, List.map_append, List.mem_append] at member
      exact .inl (member.resolve_right List.not_mem_nil)
  | alive | emptied => exact .inl member
  | @old dead todo found now heartbeat present late =>
      obtain rfl | old := List.mem_cons.mp member
      · exact .inr ⟨todo, found, now, heartbeat, rfl, rfl, present, late⟩
      · exact .inl old
  | gone => exact .inl (List.mem_cons_of_mem _ member)
  | @dead target todo found heartbeat =>
      simp only [State.condemned, List.filter_append, List.map_append, List.mem_append] at member
      obtain old | new := member
      · exact .inl (List.mem_cons_of_mem _ old)
      · obtain ⟨entry, kept, rfl⟩ := List.mem_map.mp new
        rw [List.mem_singleton.mp (List.mem_of_mem_filter kept)]
        exact .inl List.mem_cons_self
  | begun same =>
      rw [condemned_proceed] at member
      exact .inl (((same.filter _).map Prod.fst).mem_iff.mp member)
  | requeued _ _ later | removed later =>
      obtain rfl | rfl := later
      · exact .inl member
      · exact (List.not_mem_nil member).elim
  | deleted later =>
      obtain rfl | rfl := later
      · exact .inl (List.mem_cons_of_mem _ member)
      · exact (List.not_mem_nil member).elim
  | cleaned later =>
      obtain rfl | rfl := later
      · rw [condemned_proceed] at member
        exact .inl member
      · exact (List.not_mem_nil member).elim

end Reaper

namespace System

section Timed

/-- Bounds in nanoseconds: the time between two heartbeats of a pool, the time between reading a
clock and the command that goes with it, and the difference of a clock from the time. -/
structure Bounds where
  beat : ℕ
  latency : ℕ
  skew : ℕ

/-- What is remembered of a run: the time of the last step, and the time of the last heartbeat of
each pool. -/
structure BeatLog where
  time : ℤ
  beaten : PoolID → Option ℤ

/-- The pool whose heartbeat an event writes. -/
def Event.beats? : Event → Option PoolID
  | .pool id (.beatHash _ executed) => if executed then some id else none
  | _ => none

/-- Note a step. -/
def BeatLog.note (log : BeatLog) (_ : State) (event : ℤ × Event) (_ : State) : BeatLog where
  time := event.1
  beaten := match event.2.beats? with
    | some id => Function.update log.beaten id (some event.1)
    | none => log.beaten

/-- The system with times and the log of its heartbeats. -/
def timed (deployment : Deployment) : TransitionSystem (State × BeatLog) (ℤ × Event) :=
  (system deployment).stamped.monitored ⟨0, fun _ => none⟩ BeatLog.note

/-- The nanoseconds of a second. -/
def second : ℤ := 1000000000

theorem second_pos : 0 < second := by decide

/-- The beats come fast enough for the time without them after which a pool is taken for dead. A
second of it is lost as clocks show whole seconds. -/
def Bounds.Fast (bounds : Bounds) : Prop :=
  (bounds.beat + 2 * bounds.latency + 2 * bounds.skew : ℤ) ≤ (deadTime - 1) * second

instance (bounds : Bounds) : Decidable bounds.Fast := inferInstanceAs (Decidable (_ ≤ _))

/-- The clocks that an event at some time has read: a pool its own before it writes its heartbeat,
and a reaper its own when it has read one. -/
def Event.ReadsClock (bounds : Bounds) (time : ℤ) : Event → Prop
  | .pool _ (.beatHash now _) =>
      Clock.Shows second (time - bounds.latency - bounds.skew) (time + bounds.skew) now.toInt
  | .pool _ (.reaper (.heartbeatAt now _)) =>
      Clock.Shows second (time - bounds.skew) (time + bounds.latency + bounds.skew) now.toInt
  | _ => True

/-- Steps in the order of their times, at which no heartbeat is overdue and clocks are read within
the bounds. A pool is started once. -/
structure Timely (bounds : Bounds) (pair : State × BeatLog) (event : ℤ × Event) : Prop where
  ordered : pair.2.time ≤ event.1
  beating : ∀ id beaten, pair.2.beaten id = some beaten →
    (pair.1.pools id).phase.heartbeaterAlive → event.1 ≤ beaten + bounds.beat
  reads : event.2.ReadsClock bounds event.1
  once : ∀ id, event.2 = .pool id .start → (pair.1.pools id).phase = .unstarted

variable {deployment : Deployment} {bounds : Bounds} {state next : State} {log : BeatLog}
  {time : ℤ} {event : Event}

/-- A heartbeat shows the clock of the pool at its last beat. -/
def Written (bounds : Bounds) (state : State) (log : BeatLog) : Prop :=
  ∀ id, ∀ heartbeat ∈ state.redis.heartbeat id, ∃ beaten, log.beaten id = some beaten ∧
    Clock.Shows second (beaten - bounds.latency - bounds.skew) (beaten + bounds.skew)
      heartbeat.heartbeatAt.toInt

/-- What heartbeats and reapers keep while beats are in time. -/
structure Watched (bounds : Bounds) (state : State) (log : BeatLog) : Prop where
  unlaunched : ∀ id, (state.pools id).phase.unlaunched → log.beaten id = none
  written : Written bounds state log
  present : ∀ id, log.beaten id ≠ none → (state.pools id).phase.gone = false →
    state.redis.heartbeat id ≠ none
  condemned : ∀ reaper, ∀ id ∈ (state.pools reaper).reaper.condemned, (state.pools id).phase.gone

theorem Timely.start_eq (timely : Timely bounds (state, log) (time, event)) {id : PoolID}
    {poolEvent : Pool.Event} (own : event = .pool id poolEvent) (start : poolEvent = .start) :
    (state.pools id).phase = .unstarted := by
  apply timely.once
  rw [own, start]

theorem step_gone (timely : Timely bounds (state, log) (time, event))
    (stepped : step deployment state event = some next) {id : PoolID}
    (gone : (state.pools id).phase.gone) : (next.pools id).phase.gone := by
  obtain ⟨_, same⟩ | ⟨poolEvent, own, moved⟩ := step_pool_cases stepped id
  · rw [same]
    exact gone
  · exact moved.gone (timely.start_eq own) gone

theorem step_unlaunched (timely : Timely bounds (state, log) (time, event))
    (stepped : step deployment state event = some next) {id : PoolID}
    (unlaunched : (next.pools id).phase.unlaunched) : (state.pools id).phase.unlaunched := by
  obtain ⟨_, same⟩ | ⟨poolEvent, own, moved⟩ := step_pool_cases stepped id
  · rw [← same]
    exact unlaunched
  · exact moved.unlaunched (timely.start_eq own) unlaunched

theorem Event.eq_of_beats? {id : PoolID} (beats : event.beats? = some id) :
    ∃ now, event = .pool id (.beatHash now true) := by
  unfold Event.beats? at beats
  split at beats
  · next executed =>
      cases executed with
      | false => cases beats
      | true =>
          obtain rfl := Option.some.inj beats
          exact ⟨_, rfl⟩
  · cases beats

/-- A beat of a pool that is alive writes its heartbeat. -/
theorem step_beat {id : PoolID} {now : Int64}
    (stepped : step deployment state (.pool id (.beatHash now true)) = some next) :
    (state.pools id).phase.heartbeaterAlive ∧ (next.pools id).phase = (state.pools id).phase ∧
      ∃ startedAt, next.redis.heartbeat id =
        some ((deployment.pool id).heartbeat startedAt now) := by
  obtain ⟨pool, pools, moved⟩ := step_pool stepped
  rw [pools, Function.update_self]
  generalize next.redis = redis at moved
  cases moved with
  | @beat _ startedAt _ alive =>
      refine ⟨alive, rfl, startedAt, ?_⟩
      simp only [↓reduceIte, Pool.hmsetHeartbeat, Function.update_self]

/-- Without a beat, a heartbeat stays as it is, or is removed by the pool when it stops or by a
reaper that has condemned the pool. -/
theorem heartbeat_of_not_beats {id : PoolID} (silent : event.beats? ≠ some id)
    (stepped : step deployment state event = some next) :
    next.redis.heartbeat id = state.redis.heartbeat id ∨
      next.redis.heartbeat id = none ∧ ((state.pools id).phase.gone ∨
        ∃ reaper, id ∈ (state.pools reaper).reaper.condemned) := by
  cases step_presence stepped with
  | same kept => exact .inl (congrFun kept.heartbeat id)
  | joined _ _ after | left _ _ after | reapRemoved _ _ after =>
      rw [after]
      exact .inl rfl
  | @beat other now startedAt own _ _ after =>
      have different : id ≠ other := by
        rintro rfl
        rw [own] at silent
        exact silent rfl
      rw [after]
      exact .inl (Function.update_of_ne different _ _)
  | @forgotten other _ phase after =>
      rw [after]
      by_cases same : id = other
      · subst same
        refine .inr ⟨Function.update_self _ _ _, .inl ?_⟩
        rw [phase]
        rfl
      · exact .inl (Function.update_of_ne same _ _)
  | @reapDeleted reaper other jobTypes todo reply _ current after =>
      rw [after]
      by_cases same : id = other
      · subst same
        refine .inr ⟨Function.update_self _ _ _, .inr ⟨reaper, ?_⟩⟩
        rw [current]
        exact List.mem_cons_self
      · exact .inl (Function.update_of_ne same _ _)

theorem BeatLog.beaten_of_beats {id : PoolID} (beats : event.beats? = some id) :
    (log.note state (time, event) next).beaten id = some time := by
  simp only [note, beats, Function.update_self]

theorem BeatLog.beaten_of_not_beats {id : PoolID} (silent : event.beats? ≠ some id) :
    (log.note state (time, event) next).beaten id = log.beaten id := by
  unfold note
  cases beats : event.beats? with
  | none => rfl
  | some other =>
      have different : id ≠ other := by
        rintro rfl
        exact silent beats
      exact Function.update_of_ne different _ _

/-- A reaper condemns a further pool only in a step in which it finds its heartbeat old. -/
theorem step_condemned (stepped : step deployment state event = some next) {reaper id : PoolID}
    (condemned : id ∈ (next.pools reaper).reaper.condemned) :
    id ∈ (state.pools reaper).reaper.condemned ∨ ∃ now heartbeat,
      event = .pool reaper (.reaper (.heartbeatAt now .ok)) ∧
        state.redis.heartbeat id = some heartbeat ∧
        heartbeat.heartbeatAt.toInt + deadTime ≤ now.toInt := by
  obtain ⟨_, same⟩ | ⟨poolEvent, rfl, moved⟩ := step_pool_cases stepped reaper
  · exact .inl (same ▸ condemned)
  · generalize next.pools reaper = pool at moved condemned
    generalize next.redis = redis at moved
    cases moved with
    | reaped _ moved =>
        obtain old | ⟨todo, found, now, heartbeat, _, rfl, present, late⟩ :=
          moved.condemned_subset condemned
        · exact .inl old
        · exact .inr ⟨now, heartbeat, rfl, present, late⟩
    | launched => exact (List.not_mem_nil condemned).elim
    | returned =>
        left
        split at condemned
        · exact condemned
        · exact condemned
    | worked | started | capped | known | added | beat | requeued | stopping | halted | emptied
    | unreturned | cleaned | removed | forgotten | advanced | crashed => exact .inl condemned

theorem takenForDead?_eq_some {target : PoolID} (taken : takenForDead? state event = some target) :
    ∃ reaper now, event = .pool reaper (.reaper (.heartbeatAt now .ok)) ∧
      (∃ todo found, (state.pools reaper).reaper = .scanning (target :: todo) found) ∧
      ∀ heartbeat, state.redis.heartbeat target = some heartbeat →
        heartbeat.heartbeatAt.toInt + deadTime ≤ now.toInt := by
  unfold takenForDead? at taken
  split at taken
  case h_1 reaper now =>
    split at taken
    case h_1 other todo found scanning =>
      split at taken
      case h_1 heartbeat present =>
        split at taken
        · cases taken
        · next old =>
            obtain rfl := Option.some.inj taken
            refine ⟨reaper, now, rfl, ⟨todo, found, scanning⟩, ?_⟩
            intro same found
            obtain rfl := Option.some.inj (present.symm.trans found)
            exact not_lt.mp old
      case h_2 missing =>
        obtain rfl := Option.some.inj taken
        refine ⟨reaper, now, rfl, ⟨todo, found, scanning⟩, ?_⟩
        intro heartbeat present
        cases missing.symm.trans present
    case h_2 => cases taken
  case h_2 => cases taken

namespace Written

theorem step (written : Written bounds state log)
    (timely : Timely bounds (state, log) (time, event))
    (stepped : System.step deployment state event = some next) :
    Written bounds next (log.note state (time, event) next) := by
  intro id heartbeat found
  by_cases beats : event.beats? = some id
  · refine ⟨time, BeatLog.beaten_of_beats beats, ?_⟩
    obtain ⟨now, rfl⟩ := Event.eq_of_beats? beats
    obtain ⟨_, _, startedAt, after⟩ := step_beat stepped
    rw [after] at found
    obtain rfl := Option.some.inj found
    exact timely.reads
  · rw [BeatLog.beaten_of_not_beats beats]
    obtain kept | ⟨removed, _⟩ := heartbeat_of_not_beats beats stepped
    · rw [kept] at found
      exact written id heartbeat found
    · rw [removed] at found
      cases found

theorem initial (start : Initial state) : Written bounds state ⟨0, fun _ => none⟩ := by
  intro id heartbeat found
  rw [start.heartbeat] at found
  cases found

theorem reachable {pair : State × BeatLog}
    (reached : (timed deployment).Reachable (Timely bounds) pair) :
    Written bounds pair.1 pair.2 := by
  apply TransitionSystem.Reachable.monitored_invariant (Written bounds) _ _ reached
  · intro state start
    exact initial start
  · intro source memory event target _ written timely stepped
    exact written.step timely stepped

end Written

namespace Watched

/-- A pool that has begun to beat and has not gone is alive. -/
theorem heartbeaterAlive (watched : Watched bounds state log) {id : PoolID} {beaten : ℤ}
    (begun : log.beaten id = some beaten) (here : (state.pools id).phase.gone = false) :
    (state.pools id).phase.heartbeaterAlive := by
  apply Phase.heartbeaterAlive_of_not _ here
  cases unlaunched : (state.pools id).phase.unlaunched with
  | false => rfl
  | true =>
      rw [watched.unlaunched id unlaunched] at begun
      cases begun

theorem unlaunched_step (watched : Watched bounds state log)
    (timely : Timely bounds (state, log) (time, event))
    (stepped : step deployment state event = some next) {id : PoolID}
    (unlaunched : (next.pools id).phase.unlaunched) :
    (log.note state (time, event) next).beaten id = none := by
  by_cases beats : event.beats? = some id
  · obtain ⟨now, rfl⟩ := Event.eq_of_beats? beats
    obtain ⟨alive, same, _⟩ := step_beat stepped
    rw [same, Phase.not_unlaunched alive] at unlaunched
    cases unlaunched
  · rw [BeatLog.beaten_of_not_beats beats]
    exact watched.unlaunched id (step_unlaunched timely stepped unlaunched)

theorem present_step (watched : Watched bounds state log)
    (timely : Timely bounds (state, log) (time, event))
    (stepped : step deployment state event = some next) {id : PoolID}
    (begun : (log.note state (time, event) next).beaten id ≠ none)
    (here : (next.pools id).phase.gone = false) : next.redis.heartbeat id ≠ none := by
  by_cases beats : event.beats? = some id
  · obtain ⟨now, rfl⟩ := Event.eq_of_beats? beats
    obtain ⟨_, _, startedAt, written⟩ := step_beat stepped
    rw [written]
    exact Option.some_ne_none _
  · rw [BeatLog.beaten_of_not_beats beats] at begun
    have remains : (state.pools id).phase.gone = false := by
      rw [Bool.eq_false_iff] at here ⊢
      exact fun gone => here (step_gone timely stepped gone)
    obtain kept | ⟨_, gone | ⟨reaper, condemned⟩⟩ := heartbeat_of_not_beats beats stepped
    · rw [kept]
      exact watched.present id begun remains
    · rw [remains] at gone
      cases gone
    · have gone := watched.condemned reaper id condemned
      rw [remains] at gone
      cases gone

/-- An old heartbeat is that of a pool that has gone. -/
theorem gone_of_old (watched : Watched bounds state log) (fast : bounds.Fast) {reaper id : PoolID}
    {now : Int64} {reply : Reply} {heartbeat : Heartbeat}
    (timely : Timely bounds (state, log) (time, .pool reaper (.reaper (.heartbeatAt now reply))))
    (found : state.redis.heartbeat id = some heartbeat)
    (old : heartbeat.heartbeatAt.toInt + deadTime ≤ now.toInt) : (state.pools id).phase.gone := by
  by_contra here
  rw [Bool.not_eq_true] at here
  obtain ⟨beaten, begun, written⟩ := watched.written id heartbeat found
  have due : time ≤ beaten + bounds.beat :=
    timely.beating id beaten begun (watched.heartbeaterAlive begun here)
  have young : now.toInt < heartbeat.heartbeatAt.toInt + deadTime := by
    apply written.lt_add second_pos timely.reads
    have bound : (bounds.beat + 2 * bounds.latency + 2 * bounds.skew : ℤ) ≤
      (deadTime - 1) * second := fast
    linarith
  exact absurd old (not_le.mpr young)

theorem condemned_step (watched : Watched bounds state log) (fast : bounds.Fast)
    (timely : Timely bounds (state, log) (time, event))
    (stepped : step deployment state event = some next) {reaper id : PoolID}
    (condemned : id ∈ (next.pools reaper).reaper.condemned) : (next.pools id).phase.gone := by
  apply step_gone timely stepped
  obtain old | ⟨now, heartbeat, rfl, found, late⟩ := step_condemned stepped condemned
  · exact watched.condemned reaper id old
  · exact watched.gone_of_old fast timely found late

theorem step (watched : Watched bounds state log) (fast : bounds.Fast)
    (timely : Timely bounds (state, log) (time, event))
    (stepped : System.step deployment state event = some next) :
    Watched bounds next (log.note state (time, event) next) where
  unlaunched _ := watched.unlaunched_step timely stepped
  written := watched.written.step timely stepped
  present _ := watched.present_step timely stepped
  condemned _ _ := watched.condemned_step fast timely stepped

theorem initial (start : Initial state) : Watched bounds state ⟨0, fun _ => none⟩ where
  unlaunched _ _ := rfl
  written := .initial start
  present id begun _ := absurd rfl begun
  condemned reaper id member := by
    rw [start.pools] at member
    exact (List.not_mem_nil member).elim

theorem reachable (fast : bounds.Fast) {pair : State × BeatLog}
    (reached : (timed deployment).Reachable (Timely bounds) pair) :
    Watched bounds pair.1 pair.2 := by
  apply TransitionSystem.Reachable.monitored_invariant (Watched bounds) _ _ reached
  · intro state start
    exact initial start
  · intro source memory event target _ watched timely stepped
    exact watched.step fast timely stepped

end Watched

/-- Reapers take a pool for dead only if it has gone, or has not written a heartbeat yet. -/
def Accurate (bounds : Bounds) : Prop :=
  ∀ {deployment : Deployment} {state next : State} {log : BeatLog} {time : ℤ} {event : Event}
    {target : PoolID}, (timed deployment).Reachable (Timely bounds) (state, log) →
    Timely bounds (state, log) (time, event) → step deployment state event = some next →
    takenForDead? state event = some target →
    (state.pools target).phase.gone ∨ log.beaten target = none

theorem accurate_of_fast (fast : bounds.Fast) : Accurate bounds := by
  intro deployment state next log time event target reachable timely _ taken
  have watched := Watched.reachable fast reachable
  obtain ⟨reaper, now, rfl, _, old⟩ := takenForDead?_eq_some taken
  cases found : state.redis.heartbeat target with
  | some heartbeat => exact .inl (watched.gone_of_old fast timely found (old heartbeat found))
  | none =>
      by_contra live
      rw [not_or, Bool.not_eq_true] at live
      exact watched.present target live.2 live.1 found

section Slow

/-- Whether an event does not depend on the time: it reads no clock that is compared, writes no
heartbeat, and does not start a pool again. -/
def untimed (state : State) : Event → Bool
  | .pool id .start => (state.pools id).phase = .unstarted
  | .pool _ (.beatHash _ _) => false
  | .pool _ (.reaper (.heartbeatAt _ _)) => false
  | _ => true

theorem readsClock_of_untimed (free : untimed state event) : event.ReadsClock bounds time := by
  cases event with
  | pool id poolEvent =>
      cases poolEvent with
      | beatHash => cases free
      | reaper reaperEvent =>
          cases reaperEvent with
          | heartbeatAt => cases free
          | _ => trivial
      | _ => trivial
  | _ => trivial

theorem beats?_of_untimed (free : untimed state event) : event.beats? = none := by
  cases event with
  | pool id poolEvent =>
      cases poolEvent with
      | beatHash => cases free
      | _ => rfl
  | _ => rfl

/-- Events that do not depend on the time can happen at any time at which no beat is overdue. -/
theorem timely_of_untimed (free : untimed state event) (ordered : log.time ≤ time)
    (due : ∀ id beaten, log.beaten id = some beaten → time ≤ beaten + bounds.beat) :
    Timely bounds (state, log) (time, event) where
  ordered := ordered
  beating id beaten begun _ := due id beaten begun
  reads := readsClock_of_untimed free
  once id start := by
    obtain rfl : event = .pool id .start := start
    exact of_decide_eq_true free

theorem exists_reachable_of_untimed {source : State}
    (reachable : (timed deployment).Reachable (Timely bounds) (source, log))
    (ordered : log.time ≤ time)
    (due : ∀ id beaten, log.beaten id = some beaten → time ≤ beaten + bounds.beat)
    (leads : (system deployment).Leads (fun state event => untimed state event) source state) :
    ∃ last ≤ time, (timed deployment).Reachable (Timely bounds) (state, ⟨last, log.beaten⟩) := by
  induction leads with
  | refl => exact ⟨log.time, ordered, reachable⟩
  | @step state target event _ free stepped ih =>
      obtain ⟨last, before, reached⟩ := ih
      refine ⟨time, le_rfl, ?_⟩
      have noted : (target, (⟨time, log.beaten⟩ : BeatLog)) =
          (target, BeatLog.note ⟨last, log.beaten⟩ state (time, event) target) := by
        rw [BeatLog.note, beats?_of_untimed free]
      rw [noted]
      apply reached.step (timely_of_untimed free before due)
      exact Option.map_eq_some_iff.mpr ⟨target, stepped, rfl⟩

/-- If a single pool has beaten, no other beat is due. -/
theorem due_of_update {pool : PoolID} {beaten : ℤ} (due : time ≤ beaten + bounds.beat) :
    ∀ id moment, Function.update (fun _ => none) pool (some beaten) id = some moment →
      time ≤ moment + bounds.beat := by
  intro id moment noted
  by_cases same : id = pool
  · rw [same, Function.update_self] at noted
    exact Option.some.inj noted ▸ due
  · rw [Function.update_of_ne same] at noted
    cases noted

/-- Execute events, let a pool beat with a clock at zero, and execute more. -/
def runWithBeat (events later : List Event) : Option State :=
  ((system single).run (fun state event => untimed state event) emptyState events).bind
    fun before => (step single before (.pool "A" (.beatHash 0 true))).bind
    fun after => (system single).run (fun state event => untimed state event) after later

/-- Events that do not depend on the time may happen before the beat and after it. -/
theorem exists_reachable_of_beat {events rest : List Event} {beaten : ℤ}
    (executed : runWithBeat events rest = some state) (begun : 0 ≤ beaten)
    (later : beaten ≤ time) (due : time ≤ beaten + bounds.beat)
    (shows : Clock.Shows second (beaten - bounds.latency - bounds.skew) (beaten + bounds.skew) 0) :
    ∃ last ≤ time, (timed single).Reachable (Timely bounds)
      (state, ⟨last, Function.update (fun _ => none) "A" (some beaten)⟩) := by
  obtain ⟨before, booted, executed⟩ := Option.bind_eq_some_iff.mp executed
  obtain ⟨after, beat, listed⟩ := Option.bind_eq_some_iff.mp executed
  have start : (timed single).Reachable (Timely bounds) (emptyState, ⟨0, fun _ => none⟩) :=
    .initial ⟨initial_emptyState, rfl⟩
  obtain ⟨last, earlier, reachable⟩ :=
    exists_reachable_of_untimed start begun (fun _ _ none => nomatch none) (.run booted)
  have timely : Timely bounds (before, ⟨last, fun _ => none⟩)
      (beaten, .pool "A" (.beatHash 0 true)) := by
    refine ⟨earlier, ?_, shows, ?_⟩
    · intro id moment none
      cases none
    · intro id start
      cases start
  have beatReachable := reachable.step timely (Option.map_eq_some_iff.mpr ⟨after, beat, rfl⟩)
  exact exists_reachable_of_untimed beatReachable later (due_of_update due) (.run listed)

/-- A pool that has a job in progress, beats and lists the pools. -/
theorem exists_scanning : ∃ state events rest, runWithBeat events rest = some state ∧
    (state.pools "A").phase = .running ∧ (state.pools "A").reaper = .scanning ["A"] [] ∧
    (state.redis.heartbeat "A").map Heartbeat.heartbeatAt = some 0 ∧
    state.redis.list (.inProgress "A" "send") ≠ [] := by
  have executed : ((runWithBeat
      [.pool "A" .start, .pool "A" (.writeConcurrency "send" true), .pool "A" .launch,
        .enqueuer (.enqueue "send" "1" 0 none), .pool "A" (.worker 0 (.fetch ["send"] .ok)),
        .pool "A" (.beatAdd 0 true)]
      [.pool "A" (.reaper (.members ["A"] .ok))]).any fun state =>
        (state.pools "A").phase = .running ∧ (state.pools "A").reaper = .scanning ["A"] [] ∧
          (state.redis.heartbeat "A").map Heartbeat.heartbeatAt = some 0 ∧
          state.redis.list (.inProgress "A" "send") ≠ []) = true := by
    decide +kernel
  obtain ⟨state, reached, facts⟩ := (Option.any_eq_true _ _).mp executed
  exact ⟨state, _, _, reached, of_decide_eq_true facts⟩

/-- A reaper that looks at a heartbeat goes on, whatever it finds. -/
theorem exists_step_heartbeatAt {reaper target : PoolID} {todo : List PoolID}
    {found : List (PoolID × List String)} (running : (state.pools reaper).phase = .running)
    (scanning : (state.pools reaper).reaper = .scanning (target :: todo) found) (now : Int64) :
    ∃ next, step deployment state (.pool reaper (.reaper (.heartbeatAt now .ok))) = some next := by
  simp only [step, Pool.step, running, Phase.reaperAlive, ↓reduceIte, scanning, Reaper.step,
    Reply.deliver]
  cases state.redis.heartbeat target with
  | none => exact ⟨_, rfl⟩
  | some heartbeat =>
      simp only
      split <;> exact ⟨_, rfl⟩

/-- A time at which a pool may beat with a clock at zero, and a later one at which a reaper may
look with a clock at ten. -/
theorem exists_times_of_slow (slow : ¬ bounds.Fast) : ∃ beaten time : ℤ, 0 ≤ beaten ∧
    beaten ≤ time ∧ time ≤ beaten + bounds.beat ∧
    Clock.Shows second (beaten - bounds.latency - bounds.skew) (beaten + bounds.skew) 0 ∧
    Clock.Shows second (time - bounds.skew) (time + bounds.latency + bounds.skew) deadTime := by
  -- The pool has read the last instant at which its clock shows zero as early as it may, and the
  -- reaper reads the first instant at which its clock shows ten as late as it may.
  obtain ⟨beat, latency, skew⟩ := bounds
  simp only [Bounds.Fast, deadTime, second, not_le] at slow ⊢
  let early : ℤ := min (latency + skew) 9000000000
  let beaten : ℤ := 999999999 + early
  let time : ℤ := max beaten (10000000000 - latency - skew)
  have bound : early ≤ latency + skew := min_le_left _ _
  refine ⟨beaten, time, ?_, le_max_left _ _, ?_, ⟨999999999, ?_, ?_, by decide⟩,
    ⟨10000000000, ?_, ?_, by decide⟩⟩
  all_goals
    simp only [beaten, time, early]
    omega

/-- Some pool that beats in time is taken for dead if beats are slow. -/
theorem not_accurate_of_slow (slow : ¬ bounds.Fast) : ¬ Accurate bounds := by
  intro accurate
  obtain ⟨beaten, time, begun, later, due, beat, look⟩ := exists_times_of_slow slow
  obtain ⟨state, events, rest, executed, running, scanning, heartbeat, _⟩ := exists_scanning
  obtain ⟨last, earlier, reachable⟩ := exists_reachable_of_beat executed begun later due beat
  have timely : Timely bounds (state, ⟨last, Function.update (fun _ => none) "A" (some beaten)⟩)
      (time, .pool "A" (.reaper (.heartbeatAt 10 .ok))) := by
    refine ⟨earlier, fun id moment noted _ => due_of_update due id moment noted, look, ?_⟩
    intro id start
    cases start
  obtain ⟨found, present, zero⟩ := Option.map_eq_some_iff.mp heartbeat
  have old : ¬ found.heartbeatAt.toInt + deadTime > (10 : Int64).toInt := by
    rw [zero]
    decide
  have taken : takenForDead? state (.pool "A" (.reaper (.heartbeatAt 10 .ok))) = some "A" := by
    simp only [takenForDead?, scanning, present, old, ↓reduceIte]
  obtain ⟨next, stepped⟩ := exists_step_heartbeatAt running scanning 10
  obtain gone | silent := accurate reachable timely stepped taken
  · rw [running] at gone
    cases gone
  · simp only [Function.update_self, reduceCtorEq] at silent

end Slow

/-- Reapers take a pool for dead only if it has gone or has not written a heartbeat yet, for every
deployment and in every timely run, exactly if the time between two beats, twice the delay of a
command and twice the difference of a clock are nine seconds or less together. -/
theorem live_not_taken_iff (bounds : Bounds) : Accurate bounds ↔ bounds.Fast := by
  constructor
  · intro accurate
    by_contra slow
    exact not_accurate_of_slow slow accurate
  · exact accurate_of_fast

/-- Forgetting the times turns a timed run into one of the system. -/
theorem reachable_of_timed {scope : State × BeatLog → ℤ × Event → Prop} {pair : State × BeatLog}
    (reachable : (timed deployment).Reachable scope pair) :
    (system deployment).Reachable (fun _ _ => True) pair.1 := by
  apply TransitionSystem.Reachable.of_stamped
  apply TransitionSystem.Reachable.of_monitored
  exact reachable.mono fun _ _ _ => trivial

/-- While a pool has not gone, its lists of jobs in progress change only when one of its own
workers takes a step or when it requeues its jobs itself. -/
theorem live_lists_own (fast : bounds.Fast)
    (reachable : (timed deployment).Reachable (Timely bounds) (state, log))
    (stepped : step deployment state event = some next) {id : PoolID}
    (here : (state.pools id).phase.gone = false)
    (notWorker : ∀ index workerEvent, event ≠ .pool id (.worker index workerEvent))
    (notReturned : ∀ order reply, event ≠ .pool id (.requeueInProgressJobs order reply))
    (name : String) :
    next.redis.list (.inProgress id name) = state.redis.list (.inProgress id name) := by
  have watched := Watched.reachable fast reachable
  have shapes := (PayloadContract.unconditional deployment fun _ _ => True).reachable
    (reachable_of_timed reachable)
  cases step_touch stepped with
  | quiet same => exact same.progress id name
  | cleaned _ _ after | reapCleaned _ _ after => rw [after, Store.list_redisLuaReapStaleLocks]
  | @taken other _ _ _ _ _ _ fetch _ _ _ _ after =>
      have different : id ≠ other := fun same => notWorker _ _ (same ▸ fetch)
      rw [after, Store.list_move_of_ne (by simp) (by simp [different]), Store.list_acquireLock]
  | @finished other _ _ _ _ _ finish _ _ running after =>
      have different : id ≠ other := fun same => notWorker _ _ (same ▸ finish)
      obtain ⟨_, _, progress, _⟩ := shapes.workers other _ (List.mem_of_getElem? running)
      rw [after, Worker.list_removeJobFromInProgress, progress,
        Store.list_lrem_of_ne (by simp [different])]
  | @returned other _ _ _ _ _ returned _ _ _ after =>
      have different : id ≠ other := fun same => notReturned _ _ (same ▸ returned)
      rw [after, Store.list_releaseLock, Store.list_move_of_ne (by simp [different]) (by simp)]
  | @reaped reaper other _ _ _ _ _ _ _ current _ _ after =>
      -- A reaper that requeues the jobs of a pool has found its heartbeat old.
      have condemned : other ∈ (state.pools reaper).reaper.condemned := by
        rw [current]
        exact List.mem_cons_self
      have different : id ≠ other := by
        rintro rfl
        rw [watched.condemned reaper id condemned] at here
        cases here
      rw [after, Store.list_releaseLock, Store.list_move_of_ne (by simp [different]) (by simp)]

/-- A reaper looks at a pool that beats every five seconds and has a job in progress. -/
theorem live_lists_own_looking : ∃ state next, (∃ log,
    (timed single).Reachable (Timely ⟨5000000000, 1000000000, 500000000⟩) (state, log)) ∧
      step single state (.pool "A" (.reaper (.heartbeatAt 5 .ok))) = some next ∧
      state.redis.list (.inProgress "A" "send") ≠ [] ∧
      next.redis.list (.inProgress "A" "send") = state.redis.list (.inProgress "A" "send") := by
  obtain ⟨state, events, rest, executed, running, scanning, _, busy⟩ := exists_scanning
  obtain ⟨last, _, reachable⟩ := @exists_reachable_of_beat ⟨5000000000, 1000000000, 500000000⟩ _
    5000000000 _ _ 0 executed (by decide) (by decide) (by decide)
    ⟨0, by decide, by decide, by decide⟩
  obtain ⟨next, stepped⟩ := exists_step_heartbeatAt running scanning 5
  refine ⟨state, next, ⟨_, reachable⟩, stepped, busy, ?_⟩
  apply live_lists_own _ reachable stepped
  · rw [running]
    rfl
  · intro index workerEvent same
    cases same
  · intro order reply same
    cases same
  · decide

/-- A pool whose last beat was ten seconds and twice the difference of a clock ago is taken for
dead by a reaper that looks at it. -/
theorem silent_taken (reachable : (timed deployment).Reachable (Timely bounds) (state, log))
    {reaper target : PoolID} {now : Int64} {todo : List PoolID}
    {found : List (PoolID × List String)} {beaten : ℤ}
    (timely : Timely bounds (state, log) (time, .pool reaper (.reaper (.heartbeatAt now .ok))))
    (scanning : (state.pools reaper).reaper = .scanning (target :: todo) found)
    (silent : log.beaten target = some beaten)
    (long : beaten + deadTime * second + 2 * bounds.skew ≤ time) :
    takenForDead? state (.pool reaper (.reaper (.heartbeatAt now .ok))) = some target := by
  simp only [takenForDead?, scanning]
  cases present : state.redis.heartbeat target with
  | none => rfl
  | some heartbeat =>
      obtain ⟨moment, noted, shown⟩ := Written.reachable reachable target heartbeat present
      obtain rfl : beaten = moment := Option.some.inj (silent.symm.trans noted)
      have old : heartbeat.heartbeatAt.toInt + deadTime ≤ now.toInt := by
        apply shown.add_le second_pos timely.reads
        linarith
      simp only [gt_iff_lt, not_lt.mpr old, ↓reduceIte]

/-- A pool has crashed after its first beat, and another one looks for dead pools. -/
theorem silent_taken_crashed : ∃ state log, (timed single).Reachable
    (Timely ⟨5000000000, 1000000000, 500000000⟩) (state, log) ∧
      (state.pools "A").phase = .crashed ∧
      takenForDead? state (.pool "B" (.reaper (.heartbeatAt 11 .ok))) = some "A" := by
  have executed : ((runWithBeat
      [.pool "A" .start, .pool "A" (.writeConcurrency "send" true), .pool "A" .launch,
        .pool "A" (.beatAdd 0 true)]
      [.pool "A" .crash, .pool "B" .start, .pool "B" (.writeConcurrency "send" true),
        .pool "B" .launch, .pool "B" (.reaper (.members ["A"] .ok))]).any fun state =>
        (state.pools "A").phase = .crashed ∧
          (state.pools "B").reaper = .scanning ["A"] []) = true := by
    decide +kernel
  obtain ⟨state, reached, facts⟩ := (Option.any_eq_true _ _).mp executed
  obtain ⟨crashed, scanning⟩ := of_decide_eq_true facts
  obtain ⟨last, earlier, reachable⟩ :=
    @exists_reachable_of_beat ⟨5000000000, 1000000000, 500000000⟩ _ 0 _ _ 0 reached
      (by decide) (by decide) (by decide) ⟨0, by decide, by decide, by decide⟩
  have timely : Timely ⟨5000000000, 1000000000, 500000000⟩
      (state, ⟨last, Function.update (fun _ => none) "A" (some 0)⟩)
      (11000000000, .pool "B" (.reaper (.heartbeatAt 11 .ok))) := by
    refine ⟨earlier.trans (by decide), ?_, ⟨11000000000, by decide, by decide, by decide⟩, ?_⟩
    · intro id moment noted alive
      by_cases same : id = "A"
      · rw [same, crashed] at alive
        cases alive
      · simp only [Function.update_of_ne same, reduceCtorEq] at noted
    · intro id start
      cases start
  have silent : Function.update (fun _ => none) "A" (some (0 : ℤ)) "A" = some 0 :=
    Function.update_self _ _ _
  exact ⟨state, _, reachable, crashed, silent_taken reachable timely scanning silent (by decide)⟩

end Timed

end System
