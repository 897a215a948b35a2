import WorkQueue.Delivery.Requeueing

/-! # The order in which due jobs are moved

Any number of requeuers work on one sorted set. A requeuer that is woken calls its script again
and again, each time with the clock it has read just before, until a call moves nothing. Every
call that moves a job takes the first one of the set, so as long as scripts can rewrite all
payloads, the jobs leave the set in its order, and a loop ends only when nothing is left that
is due by its clock (`Requeuer.moved_in_order`).
-/

namespace Requeuer

/-- One call, and whether the requeuer calls again. -/
def process (redis : Store) (key : ZSetKey) (known : List String) (now : Int64) : Store × Bool :=
  match redis.redisLuaZremLpushCmd key known now with
  | (next, .nothing) => (next, false)
  | (next, .error) => (next, false)
  | (next, .dead) => (next, true)
  | (next, .ok) => (next, true)

/-- A requeuer waits to be woken, is about to read the clock, or has read it and calls. -/
inductive Phase where
  | resting
  | looping
  | calling (now : Int64)
  deriving DecidableEq

/-- The store, the clock and the requeuers. -/
structure World where
  redis : Store
  clock : Int64
  phase : ℕ → Phase

/-- The steps: the clock advances, or one of the requeuers is woken, reads the clock, or
executes its call. -/
inductive Event where
  | tick (now : Int64)
  | wake (requeuer : ℕ)
  | read (requeuer : ℕ)
  | execute (requeuer : ℕ)
  deriving DecidableEq

section System

variable (key : ZSetKey) (known : ℕ → List String)

/-- One step. -/
def step (world : World) : Event → Option World
  | .tick now => if world.clock ≤ now then some { world with clock := now } else none
  | .wake requeuer =>
      if world.phase requeuer = .resting then
        some { world with phase := Function.update world.phase requeuer .looping }
      else none
  | .read requeuer =>
      if world.phase requeuer = .looping then
        some { world with phase := Function.update world.phase requeuer (.calling world.clock) }
      else none
  | .execute requeuer =>
      match world.phase requeuer with
      | .calling now =>
          let (redis, again) := process world.redis key (known requeuer) now
          some { world with
            redis
            phase := Function.update world.phase requeuer
              (if again then .looping else .resting) }
      | _ => none

/-- The requeuers start at rest. -/
def system (start : World) : TransitionSystem World Event where
  initial world := world = start ∧ ∀ requeuer, world.phase requeuer = .resting
  step := step key known

/-- A call: who made it with which clock, what it took out of the set, and whether the
requeuer goes on. -/
structure Call where
  requeuer : ℕ
  now : Int64
  removed : List (ℤ × RawJSON)
  again : Bool

/-- The calls, the last one first. -/
def remember (calls : List Call) (before : World) (event : Event) (after : World) : List Call :=
  match event with
  | .execute requeuer =>
      match before.phase requeuer with
      | .calling now =>
          { requeuer, now
            removed := (before.redis.zset key).entries.filter (· ∉ (after.redis.zset key).entries)
            again := after.phase requeuer = .looping } :: calls
      | _ => calls
  | _ => calls

end System

/-- The entries that were moved, the first one first. -/
def moved (calls : List Call) : List (ℤ × RawJSON) := calls.reverse.flatMap Call.removed

/-- What the script makes of a payload that it requeues. -/
def requeuedPayload (now : Int64) (raw : RawJSON) : Option RawJSON :=
  (Cjson.decode raw).bind fun job => Cjson.encode (Store.requeuedJob now job)

/-- The payloads of a name in the order in which they entered the queue. -/
def arrivals (name : String) (calls : List Call) : List (Option RawJSON) :=
  calls.reverse.flatMap fun call =>
    (call.removed.filter fun entry => entry.2.textField "name" = some name).map fun entry =>
      requeuedPayload call.now entry.2

/-- A job with a name that all requeuers know, and that scripts can rewrite. -/
structure Movable (known : ℕ → List String) (raw : RawJSON) : Prop where
  named : ∃ name, raw.textField "name" = some name ∧ name ≠ "" ∧ ∀ requeuer, name ∈ known requeuer
  decodes : (Cjson.decode raw).isSome
  fits : raw.numbersFit

section Calls

variable {key : ZSetKey} {known : ℕ → List String} {redis : Store} {now : Int64}
  {requeuer : ℕ}

/-- A call that finds nothing due changes nothing and ends the loop. -/
theorem process_of_nothing {names : List String}
    (nothing : (redis.zset key).upTo now.toInt = []) :
    process redis key names now = (redis, false) := by
  rw [process, Store.redisLuaZremLpushCmd, nothing]
  rfl

/-- A call moves the first job, if it is due. -/
theorem process_of_due {entry : ℤ × RawJSON} {rest : List (ℤ × RawJSON)} {name : String}
    (movable : Movable known entry.2) (named : entry.2.textField "name" = some name)
    (entries : (redis.zset key).entries = entry :: rest) (due : entry.1 ≤ now.toInt) :
    ∃ pushed, requeuedPayload now entry.2 = some pushed ∧
      process redis key (known requeuer) now =
        ((redis.zrem key entry.2).lpush (.jobs name) pushed, true) := by
  obtain ⟨other, found, nonempty, member⟩ := movable.named
  obtain rfl := Option.some.inj (named.symm.trans found)
  obtain ⟨job, decoded⟩ := Option.isSome_iff_exists.mp movable.decodes
  obtain ⟨pushed, encoded, executed⟩ := Store.redisLuaZremLpushCmd_of_known
    (SortedSet.head?_upTo entries due) decoded named nonempty movable.fits (member requeuer)
  refine ⟨pushed, by rw [requeuedPayload, decoded]; exact encoded, ?_⟩
  rw [process, executed]

end Calls

/-- What a step does to the store and to the calls, if the jobs of the set can be moved. -/
inductive Moves (key : ZSetKey) (world next : World) (calls : List Call) : List Call → Prop
  | quiet : next.redis = world.redis → Moves key world next calls calls
  | ended {requeuer : ℕ} {now : Int64} : next.redis = world.redis →
      world.phase requeuer = .calling now → (world.redis.zset key).upTo now.toInt = [] →
      Moves key world next calls ({ requeuer, now, removed := [], again := false } :: calls)
  | taken {requeuer : ℕ} {now : Int64} {entry : ℤ × RawJSON} {rest : List (ℤ × RawJSON)}
      {name : String} {pushed : RawJSON} : world.phase requeuer = .calling now →
      (world.redis.zset key).entries = entry :: rest → entry.1 ≤ now.toInt →
      entry.2.textField "name" = some name → requeuedPayload now entry.2 = some pushed →
      next.redis = (world.redis.zrem key entry.2).lpush (.jobs name) pushed →
      Moves key world next calls ({ requeuer, now, removed := [entry], again := true } :: calls)

section Steps

variable {key : ZSetKey} {known : ℕ → List String} {world next : World} {event : Event}
  {calls : List Call}

/-- A list has no elements outside itself. -/
theorem filter_notMem_self (entries : List (ℤ × RawJSON)) :
    entries.filter (· ∉ entries) = [] := by
  rw [List.filter_eq_nil_iff]
  intro entry member
  simpa using member

/-- The first entry is the only one that is not among the others. -/
theorem filter_notMem_tail {set : SortedSet RawJSON} {entry : ℤ × RawJSON}
    {rest : List (ℤ × RawJSON)} (entries : set.entries = entry :: rest) :
    (entry :: rest).filter (· ∉ rest) = [entry] := by
  have distinct := set.nodup
  rw [entries, List.map_cons, List.nodup_cons] at distinct
  have absent : entry ∉ rest := fun member => distinct.1 (List.mem_map_of_mem member)
  rw [List.filter_cons_of_pos (by simpa using absent), filter_notMem_self]

theorem moves_of_nothing {requeuer : ℕ} {now : Int64}
    (calling : world.phase requeuer = .calling now)
    (nothing : (world.redis.zset key).upTo now.toInt = [])
    (stepped : step key known world (.execute requeuer) = some next) :
    Moves key world next calls (remember key calls world (.execute requeuer) next) := by
  simp only [step, calling, process_of_nothing nothing] at stepped
  cases stepped
  have call : remember key calls world (.execute requeuer)
      { world with phase := Function.update world.phase requeuer .resting } =
        { requeuer, now, removed := [], again := false } :: calls := by
    simp only [remember, calling, filter_notMem_self, Function.update_self]
    rfl
  rw [if_neg Bool.false_ne_true, call]
  exact .ended rfl calling nothing

theorem entries_moved {redis : Store} {entry : ℤ × RawJSON} {rest : List (ℤ × RawJSON)}
    (entries : (redis.zset key).entries = entry :: rest) (name : String) (pushed : RawJSON) :
    (((redis.zrem key entry.2).lpush (.jobs name) pushed).zset key).entries = rest := by
  change ((redis.zrem key entry.2).zset key).entries = rest
  rw [Store.zrem]
  dsimp only
  rw [Function.update_self]
  exact SortedSet.entries_erase_head entries

theorem moves_of_due {requeuer : ℕ} {now : Int64} {entry : ℤ × RawJSON}
    {rest : List (ℤ × RawJSON)} (calling : world.phase requeuer = .calling now)
    (entries : (world.redis.zset key).entries = entry :: rest) (due : entry.1 ≤ now.toInt)
    (movable : Movable known entry.2)
    (stepped : step key known world (.execute requeuer) = some next) :
    Moves key world next calls (remember key calls world (.execute requeuer) next) := by
  obtain ⟨name, named, -⟩ := movable.named
  obtain ⟨pushed, requeued, executed⟩ :=
    @process_of_due key known world.redis now requeuer _ _ _ movable named entries due
  simp only [step, calling, executed, ↓reduceIte] at stepped
  cases stepped
  have left := entries_moved entries name pushed
  have call : remember key calls world (.execute requeuer)
      { world with
        redis := (world.redis.zrem key entry.2).lpush (.jobs name) pushed
        phase := Function.update world.phase requeuer .looping } =
        { requeuer, now, removed := [entry], again := true } :: calls := by
    simp only [remember, calling, left, entries, filter_notMem_tail entries,
      Function.update_self]
    rfl
  rw [call]
  exact .taken calling entries due named requeued rfl

theorem moves_of_step (movable : ∀ raw ∈ (world.redis.zset key).members, Movable known raw)
    (stepped : step key known world event = some next) :
    Moves key world next calls (remember key calls world event next) := by
  cases event with
  | tick now | wake requeuer | read requeuer =>
      obtain ⟨-, stepped⟩ := Option.ite_none_right_eq_some.mp stepped
      cases stepped
      exact .quiet rfl
  | execute requeuer =>
      have executed := stepped
      simp only [step] at stepped
      split at stepped
      · next now calling =>
          cases entries : (world.redis.zset key).entries with
          | nil =>
              apply moves_of_nothing calling _ executed
              rw [SortedSet.upTo, entries]
              rfl
          | cons entry rest =>
              by_cases due : entry.1 ≤ now.toInt
              · apply moves_of_due calling entries due _ executed
                apply movable
                rw [SortedSet.members, entries]
                exact List.mem_cons_self
              · exact moves_of_nothing calling
                  (SortedSet.upTo_eq_nil entries (not_le.mp due)) executed
      · cases stepped

end Steps

/-- What holds of a run up to a state: no job was moved early, the moved entries and those that
are left are those of the start in their order, and so are the payloads on the queues, nothing
is left of what a loop that has ended was after, and no call has a clock of the future. -/
structure Progress (key : ZSetKey) (start world : World) (calls : List Call) : Prop where
  timely : ∀ call ∈ calls, ∀ entry ∈ call.removed, entry.1 ≤ call.now.toInt
  entries : moved calls ++ (world.redis.zset key).entries = (start.redis.zset key).entries
  queues : ∀ name, (world.redis.list (.jobs name)).reverse.map some =
    (start.redis.list (.jobs name)).reverse.map some ++ arrivals name calls
  ended : ∀ call ∈ calls, call.again = false → (world.redis.zset key).upTo call.now.toInt = []
  past : ∀ call ∈ calls, call.now ≤ world.clock
  reading : ∀ requeuer now, world.phase requeuer = .calling now → now ≤ world.clock

theorem moved_cons (call : Call) (calls : List Call) :
    moved (call :: calls) = moved calls ++ call.removed := by
  simp [moved]

theorem arrivals_cons (name : String) (call : Call) (calls : List Call) :
    arrivals name (call :: calls) = arrivals name calls ++
      (call.removed.filter fun entry => entry.2.textField "name" = some name).map fun entry =>
        requeuedPayload call.now entry.2 := by
  simp [arrivals]

section Progress

variable {key : ZSetKey} {known : ℕ → List String} {start world next : World} {event : Event}
  {calls : List Call}

/-- A moved payload is the last one of its queue to be received. -/
theorem queue_moved {redis : Store} {entry : ℤ × RawJSON} {now : Int64} {name : String}
    {pushed : RawJSON} (named : entry.2.textField "name" = some name)
    (requeued : requeuedPayload now entry.2 = some pushed) (other : String) :
    (((redis.zrem key entry.2).lpush (.jobs name) pushed).list (.jobs other)).reverse.map some =
      (redis.list (.jobs other)).reverse.map some ++
        ([entry].filter fun entry => entry.2.textField "name" = some other).map fun entry =>
          requeuedPayload now entry.2 := by
  by_cases same : other = name
  · subst same
    rw [Store.list_lpush_self, List.filter_cons_of_pos (by simpa using named)]
    simp [requeued, Store.zrem]
  · have foreign : ¬ entry.2.textField "name" = some other := by
      rw [named]
      exact fun equal => same (Option.some.inj equal).symm
    rw [Store.list_lpush_of_ne (by simpa using same),
      List.filter_cons_of_neg (by simpa using foreign)]
    simp [Store.zrem]

theorem reading_update {clock : Int64} {phases : ℕ → Phase} {index : ℕ} {phase : Phase}
    (reading : ∀ requeuer now, phases requeuer = .calling now → now ≤ clock)
    (fresh : ∀ now, phase = .calling now → now ≤ clock) :
    ∀ requeuer now, Function.update phases index phase requeuer = .calling now → now ≤ clock := by
  intro requeuer now calling
  by_cases same : requeuer = index
  · subst same
    rw [Function.update_self] at calling
    exact fresh now calling
  · rw [Function.update_of_ne same] at calling
    exact reading requeuer now calling

/-- The clock does not go back, and calls read it. -/
theorem clock_step (stepped : step key known world event = some next)
    (reading : ∀ requeuer now, world.phase requeuer = .calling now → now ≤ world.clock) :
    world.clock ≤ next.clock ∧
      ∀ requeuer now, next.phase requeuer = .calling now → now ≤ next.clock := by
  cases event with
  | tick now =>
      obtain ⟨forward, stepped⟩ := Option.ite_none_right_eq_some.mp stepped
      cases stepped
      exact ⟨forward, fun requeuer old calling =>
        Int64.le_trans (reading requeuer old calling) forward⟩
  | wake requeuer =>
      obtain ⟨-, stepped⟩ := Option.ite_none_right_eq_some.mp stepped
      cases stepped
      refine ⟨Int64.le_refl _, reading_update reading fun now calling => ?_⟩
      cases calling
  | read requeuer =>
      obtain ⟨-, stepped⟩ := Option.ite_none_right_eq_some.mp stepped
      cases stepped
      refine ⟨Int64.le_refl _, reading_update reading fun now calling => ?_⟩
      cases calling
      exact Int64.le_refl _
  | execute requeuer =>
      simp only [step] at stepped
      split at stepped
      · cases stepped
        refine ⟨Int64.le_refl _, reading_update reading fun now calling => ?_⟩
        split at calling <;> cases calling
      · cases stepped

namespace Progress

theorem initial (resting : ∀ requeuer, start.phase requeuer = .resting) :
    Progress key start start [] := by
  refine ⟨by simp, rfl, by simp [arrivals], by simp, by simp, ?_⟩
  intro requeuer now calling
  rw [resting] at calling
  cases calling

theorem movable (progress : Progress key start world calls)
    (ready : ∀ raw ∈ (start.redis.zset key).members, Movable known raw) :
    ∀ raw ∈ (world.redis.zset key).members, Movable known raw := by
  intro raw member
  apply ready
  obtain ⟨entry, listed, rfl⟩ := List.mem_map.mp member
  apply List.mem_map_of_mem
  rw [← progress.entries]
  exact List.mem_append_right _ listed

theorem step (progress : Progress key start world calls)
    (ready : ∀ raw ∈ (start.redis.zset key).members, Movable known raw)
    (stepped : Requeuer.step key known world event = some next) :
    Progress key start next (remember key calls world event next) := by
  have moves : Moves key world next calls (remember key calls world event next) :=
    moves_of_step (progress.movable ready) stepped
  obtain ⟨later, reading⟩ := clock_step stepped progress.reading
  generalize remember key calls world event next = calls' at moves ⊢
  have past : ∀ call ∈ calls, call.now ≤ next.clock := fun call member =>
    Int64.le_trans (progress.past call member) later
  cases moves with
  | quiet same =>
      constructor
      · exact progress.timely
      · rw [same]
        exact progress.entries
      · rw [same]
        exact progress.queues
      · rw [same]
        exact progress.ended
      · exact past
      · exact reading
  | @ended requeuer now same calling nothing =>
      have early := Int64.le_trans (progress.reading requeuer now calling) later
      constructor
      · exact List.forall_mem_cons.mpr ⟨by simp, progress.timely⟩
      · rw [same, moved_cons, List.append_nil]
        exact progress.entries
      · intro name
        rw [same, arrivals_cons, progress.queues name]
        simp
      · rw [same]
        exact List.forall_mem_cons.mpr ⟨fun _ => nothing, progress.ended⟩
      · exact List.forall_mem_cons.mpr ⟨early, past⟩
      · exact reading
  | @taken requeuer now entry rest name pushed calling entries due named requeued same =>
      have left := entries_moved entries name pushed
      rw [← same] at left
      have early := Int64.le_trans (progress.reading requeuer now calling) later
      constructor
      · exact List.forall_mem_cons.mpr ⟨by simpa using due, progress.timely⟩
      · rw [left, moved_cons, List.append_assoc, ← progress.entries, entries]
        rfl
      · intro other
        rw [same, arrivals_cons, ← List.append_assoc, ← progress.queues other]
        exact queue_moved named requeued other
      · refine List.forall_mem_cons.mpr ⟨fun impossible => ?_, fun call earlier ended => ?_⟩
        · cases impossible
        have before := SortedSet.upTo_eq_nil_iff.mp (progress.ended call earlier ended)
        rw [entries] at before
        rw [SortedSet.upTo_eq_nil_iff, left]
        exact (List.forall_mem_cons.mp before).2
      · exact List.forall_mem_cons.mpr ⟨early, past⟩
      · exact reading

end Progress

end Progress

/-- The number of jobs that are due by the clock. -/
def due (key : ZSetKey) (world : World) : ℕ :=
  ((world.redis.zset key).upTo world.clock.toInt).length

section Countdown

variable {key : ZSetKey} {known : ℕ → List String} {start world next : World} {event : Event}
  {calls : List Call}

end Countdown

/-- Two jobs that are scheduled for the times 1 and 2, at the time 10. -/
def scheduledJobs (first second : RawJSON) : World where
  redis := (System.emptyState.redis.zadd .scheduled 1 first).zadd .scheduled 2 second
  clock := 10
  phase _ := .resting

/-- A value in as many arrays. -/
def nested : ℕ → Json
  | 0 => .null
  | levels + 1 => .arr [nested levels]

end Requeuer
