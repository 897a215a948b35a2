import Mathlib.Data.Finset.Sort
import Mathlib.Data.String.Basic
import WorkQueue.Client.Observations
import WorkQueue.Foundation.Splitting
import WorkQueue.System

/-! # Heartbeats as clients and reapers read them

A pool joins its job names and its worker identifiers with commas, and clients and reapers
split them again. Splitting gives back what was joined only if there was something to join
and no part holds a comma. Then a client shows the names and the identifiers in order, and a
reaper requeues the jobs in progress of every registered name
(`PoolConfig.heartbeat_read_back_iff`).
-/

/-- Names that can be told apart after they have been joined: there are some, and none holds
a comma. -/
def Separable (names : List String) : Prop := names ≠ [] ∧ ∀ name ∈ names, ',' ∉ name.toList

instance (names : List String) : Decidable (Separable names) :=
  inferInstanceAs (Decidable (_ ∧ _))

section Names

variable {names : List String}

theorem not_comma_of_mem_splitNames {joined name : String} (member : name ∈ splitNames joined) :
    ',' ∉ name.toList := by
  obtain ⟨part, found, rfl⟩ := List.mem_map.mp member
  rw [String.toList_ofList]
  intro inside
  have plain := Splitting.not_separator_of_mem found ',' inside
  simp at plain

theorem splitNames_ne_nil (joined : String) : splitNames joined ≠ [] := by
  rw [splitNames, ne_eq, List.map_eq_nil_iff]
  exact List.splitOnP_ne_nil _ _

/-- Splitting gives back names without commas. -/
theorem splitNames_joinNames (separable : Separable names) :
    splitNames (joinNames names) = names := by
  obtain ⟨nonempty, plain⟩ := separable
  have parts : ([','].intercalate (names.map String.toList)).splitOn ',' =
      names.map String.toList := by
    refine List.splitOn_intercalate ',' ?_ (by simpa using nonempty)
    intro part member
    obtain ⟨name, registered, rfl⟩ := List.mem_map.mp member
    exact plain name registered
  rw [splitNames, joinNames, String.toList_ofList, parts, List.map_map]
  exact (List.map_congr_left fun name _ => String.ofList_toList).trans (List.map_id' names)

/-- Splitting finds exactly the names that were joined if there are any and none holds a
comma. -/
theorem mem_splitNames_iff :
    (∀ name, name ∈ splitNames (joinNames names) ↔ name ∈ names) ↔ Separable names := by
  constructor
  · intro same
    refine ⟨?_, fun name member => not_comma_of_mem_splitNames ((same name).mpr member)⟩
    rintro rfl
    obtain ⟨name, member⟩ := List.exists_mem_of_ne_nil _ (splitNames_ne_nil (joinNames []))
    exact List.not_mem_nil ((same name).mp member)
  · intro separable name
    rw [splitNames_joinNames separable]

theorem mem_sortNames {name : String} : name ∈ sortNames names ↔ name ∈ names :=
  (List.perm_insertionSort _ _).mem_iff

theorem separable_sortNames : Separable (sortNames names) ↔ Separable names := by
  have nonempty : sortNames names ≠ [] ↔ names ≠ [] := by
    rw [ne_eq, ne_eq, ← List.length_eq_zero_iff, ← List.length_eq_zero_iff, sortNames,
      List.length_insertionSort]
  rw [Separable, Separable, nonempty]
  simp only [mem_sortNames]

theorem sortNames_sortNames (names : List String) : sortNames (sortNames names) = sortNames names :=
  (List.pairwise_insertionSort _ _).insertionSort_eq

/-- What is read back from sorted names, and when they are the names. -/
theorem read_back_iff :
    sortNames (splitNames (joinNames (sortNames names))) = sortNames names ↔
      Separable names := by
  rw [← separable_sortNames]
  constructor
  · intro same
    apply mem_splitNames_iff.mp
    intro name
    rw [← mem_sortNames, same]
  · intro separable
    rw [splitNames_joinNames separable, sortNames_sortNames]

end Names

/-- The digits of a natural number. -/
def formatNat (value : ℕ) : String := String.ofList (Nat.toDigits 10 value)

/-- Read an unsigned decimal integer of 64 bits. -/
def parseUint (text : String) : Option UInt64 :=
  if text.toList = [] ∨ ¬ text.toList.all Char.isDigit then none
  else if Nat.ofDigitChars 10 text.toList 0 < 2 ^ 64 then
    some (UInt64.ofNat (Nat.ofDigitChars 10 text.toList 0))
  else none

section Numbers

variable {value : ℕ}

theorem parseUint_formatNat (small : value < 2 ^ 64) :
    parseUint (formatNat value) = some (UInt64.ofNat value) := by
  have digits : ¬ (Nat.toDigits 10 value = [] ∨
      ¬ (Nat.toDigits 10 value).all Char.isDigit = true) := by
    rw [not_or, not_not]
    exact ⟨Nat.toDigits_ne_nil, List.all_eq_true.mpr (isDigit_toDigits value)⟩
  rw [parseUint, formatNat, String.toList_ofList, if_neg digits,
    Nat.ofDigitChars_toDigits (by decide) (by decide), if_pos small]

theorem parseInt_formatNat (small : value < 2 ^ 63) :
    parseInt (formatNat value) = some (Int64.ofNat value) := by
  have exact : (Int64.ofNat value).toInt = value := Int64.toInt_ofNat_of_lt small
  have same : formatNat value = formatInt (Int64.ofNat value) := by
    rw [formatNat, formatInt, intDigits, exact, if_neg (by omega), Int.natAbs_natCast]
  rw [same, parseInt_formatInt]

end Numbers

/-- The fields that a heartbeat sets. -/
def Heartbeat.fields (heartbeat : Heartbeat) : List (String × String) :=
  [("heartbeat_at", formatInt heartbeat.heartbeatAt),
    ("started_at", formatInt heartbeat.startedAt),
    ("job_names", heartbeat.jobNames),
    ("concurrency", formatNat heartbeat.concurrency),
    ("worker_ids", heartbeat.workerIDs),
    ("host", heartbeat.host),
    ("pid", formatNat heartbeat.pid)]

/-- The numbers of a heartbeat are machine words. -/
def Heartbeat.Fits (heartbeat : Heartbeat) : Prop :=
  heartbeat.concurrency < 2 ^ 64 ∧ heartbeat.pid < 2 ^ 63

/-- What a client shows of a worker pool. -/
structure WorkerPoolHeartbeat where
  workerPoolID : PoolID
  startedAt : Int64 := 0
  heartbeatAt : Int64 := 0
  jobNames : List String := []
  concurrency : UInt64 := 0
  host : String := ""
  pid : Int64 := 0
  workerIDs : List String := []
  deriving DecidableEq

namespace WorkerPoolHeartbeat

/-- Read one field of a heartbeat. Unknown fields are skipped. -/
def readField (heartbeat : WorkerPoolHeartbeat) (field : String × String) :
    Option WorkerPoolHeartbeat :=
  if field.1 = "heartbeat_at" then
    (parseInt field.2).map fun heartbeatAt => { heartbeat with heartbeatAt }
  else if field.1 = "started_at" then
    (parseInt field.2).map fun startedAt => { heartbeat with startedAt }
  else if field.1 = "job_names" then
    some { heartbeat with jobNames := sortNames (splitNames field.2) }
  else if field.1 = "concurrency" then
    (parseUint field.2).map fun concurrency => { heartbeat with concurrency }
  else if field.1 = "host" then some { heartbeat with host := field.2 }
  else if field.1 = "pid" then (parseInt field.2).map fun pid => { heartbeat with pid }
  else if field.1 = "worker_ids" then
    some { heartbeat with workerIDs := sortNames (splitNames field.2) }
  else some heartbeat

/-- Read the fields of a heartbeat in the order in which they come. -/
def decode (workerPoolID : PoolID) (vals : List (String × String)) : Option WorkerPoolHeartbeat :=
  vals.foldlM readField { workerPoolID }

/-- What is shown for a heartbeat. -/
def shown (id : PoolID) (heartbeat : Heartbeat) : WorkerPoolHeartbeat where
  workerPoolID := id
  startedAt := heartbeat.startedAt
  heartbeatAt := heartbeat.heartbeatAt
  jobNames := sortNames (splitNames heartbeat.jobNames)
  concurrency := UInt64.ofNat heartbeat.concurrency
  host := heartbeat.host
  pid := Int64.ofNat heartbeat.pid
  workerIDs := sortNames (splitNames heartbeat.workerIDs)

/-- What reading the field of a key sets. -/
def fill (heartbeat : Heartbeat) (before : WorkerPoolHeartbeat) (key : String) :
    WorkerPoolHeartbeat :=
  { before with
    startedAt := if key = "started_at" then heartbeat.startedAt else before.startedAt
    heartbeatAt := if key = "heartbeat_at" then heartbeat.heartbeatAt else before.heartbeatAt
    jobNames :=
      if key = "job_names" then sortNames (splitNames heartbeat.jobNames) else before.jobNames
    concurrency :=
      if key = "concurrency" then UInt64.ofNat heartbeat.concurrency else before.concurrency
    host := if key = "host" then heartbeat.host else before.host
    pid := if key = "pid" then Int64.ofNat heartbeat.pid else before.pid
    workerIDs :=
      if key = "worker_ids" then sortNames (splitNames heartbeat.workerIDs)
      else before.workerIDs }

theorem readField_eq {heartbeat : Heartbeat} (fits : heartbeat.Fits) {field : String × String}
    (member : field ∈ heartbeat.fields) (before : WorkerPoolHeartbeat) :
    readField before field = some (fill heartbeat before field.1) := by
  simp only [Heartbeat.fields, List.mem_cons, List.not_mem_nil, or_false] at member
  rcases member with rfl | rfl | rfl | rfl | rfl | rfl | rfl
  all_goals simp [readField, fill, parseInt_formatInt, parseUint_formatNat fits.1,
    parseInt_formatNat fits.2]

/-- The keys of a heartbeat can be filled in in any order. -/
theorem fill_comm (heartbeat : Heartbeat) (before : WorkerPoolHeartbeat) (first second : String) :
    fill heartbeat (fill heartbeat before first) second =
      fill heartbeat (fill heartbeat before second) first := by
  have swap : ∀ {Value : Type} (one other : Prop) [Decidable one] [Decidable other]
      (new old : Value), (if one then new else if other then new else old) =
        if other then new else if one then new else old := by
    intro Value one other _ _ new old
    by_cases chosen : one
    · simp only [chosen, ↓reduceIte, ite_self]
    · simp only [chosen, ↓reduceIte]
  simp only [fill, mk.injEq, true_and]
  exact ⟨swap .., swap .., swap .., swap .., swap .., swap .., swap ..⟩

/-- A client reads a heartbeat whatever the order of its fields. -/
theorem decode_fields {heartbeat : Heartbeat} (fits : heartbeat.Fits)
    {vals : List (String × String)} (listed : heartbeat.fields.Perm vals) (id : PoolID) :
    decode id vals = some (shown id heartbeat) := by
  have filled : ∀ (vals : List (String × String)) (before : WorkerPoolHeartbeat),
      (∀ field ∈ vals, field ∈ heartbeat.fields) → vals.foldlM readField before =
        some (vals.foldl (fun next field => fill heartbeat next field.1) before) := by
    intro vals
    induction vals with
    | nil => exact fun before known => rfl
    | cons field vals ih =>
        intro before known
        rw [List.foldlM_cons, readField_eq fits (known field List.mem_cons_self)]
        exact ih _ fun later member => known later (List.mem_cons_of_mem field member)
  rw [decode, filled vals _ fun field member => listed.mem_iff.mpr member,
    ← listed.foldl_eq' (fun first _ second _ before => fill_comm heartbeat before first.1 second.1)]
  rfl

end WorkerPoolHeartbeat

/-- Names as a client lists them. -/
def Client.inOrder (names : Finset String) : List String := names.sort

/-- A client lists the pools in order and reads the heartbeat of each, whose fields come in
some order. A pool without a heartbeat is listed too. -/
def Client.workerPoolHeartbeats (listing : Heartbeat → List (String × String)) (redis : Store) :
    Option (List WorkerPoolHeartbeat) :=
  (inOrder redis.workerPools).mapM fun id =>
    WorkerPoolHeartbeat.decode id ((redis.heartbeat id).elim [] listing)

/-- What is shown for a pool with or without a heartbeat. -/
def Store.shownHeartbeat (redis : Store) (id : PoolID) : WorkerPoolHeartbeat :=
  (redis.heartbeat id).elim { workerPoolID := id } (WorkerPoolHeartbeat.shown id)

/-- A client shows every pool. -/
theorem Client.workerPoolHeartbeats_eq {listing : Heartbeat → List (String × String)}
    (listed : ∀ heartbeat : Heartbeat, heartbeat.fields.Perm (listing heartbeat)) {redis : Store}
    (fits : ∀ id, ∀ heartbeat ∈ redis.heartbeat id, heartbeat.Fits) :
    workerPoolHeartbeats listing redis =
      some ((inOrder redis.workerPools).map redis.shownHeartbeat) := by
  have each : ∀ id, WorkerPoolHeartbeat.decode id ((redis.heartbeat id).elim [] listing) =
      some (redis.shownHeartbeat id) := by
    intro id
    unfold Store.shownHeartbeat
    cases beats : redis.heartbeat id with
    | none => rfl
    | some heartbeat =>
        exact WorkerPoolHeartbeat.decode_fields (fits id heartbeat beats) (listed heartbeat) id
  simp only [workerPoolHeartbeats, each]
  exact List.mapM_pure

/-- A heartbeat is read back: the client shows the registered names and the worker
identifiers in order, the reaper takes the registered names for those of the pool, and it does
not stop before all their jobs in progress are requeued. -/
structure PoolConfig.ReadBack (config : PoolConfig) (id : PoolID) (shown : WorkerPoolHeartbeat)
    (jobTypes : List String) : Prop where
  jobNames : shown.jobNames = sortNames config.names
  workerIDs : shown.workerIDs = sortNames config.workerIDs
  registered : jobTypes.toFinset = config.names.toFinset
  visited : ∀ redis : Store, (redis.redisLuaReenqueueJob id jobTypes).2 = none →
    ∀ name ∈ config.names, redis.list (.inProgress id name) = []

/-- A script that finds nothing to requeue has looked at the jobs in progress of all its
names. -/
theorem Store.progress_eq_nil_of_none {redis : Store} {id : PoolID} {names : List String}
    (nothing : (redis.redisLuaReenqueueJob id names).2 = none) :
    ∀ name ∈ names, redis.list (.inProgress id name) = [] := by
  rcases redis.redisLuaReenqueueJob_cases id names with ⟨-, empty⟩ | ⟨_, _, _, _, _, moved⟩
  · exact empty
  · rw [moved] at nothing
    cases nothing

/-- Every pool is shown once. -/
theorem Client.filter_shownHeartbeat {redis : Store} {id : PoolID}
    (member : id ∈ redis.workerPools) :
    ((inOrder redis.workerPools).map redis.shownHeartbeat).filter
        (fun heartbeat => heartbeat.workerPoolID = id) = [redis.shownHeartbeat id] := by
  have own : ∀ other, (redis.shownHeartbeat other).workerPoolID = other := by
    intro other
    unfold Store.shownHeartbeat
    cases redis.heartbeat other <;> rfl
  have once : (inOrder redis.workerPools).count id = 1 :=
    List.count_eq_one_of_mem (Finset.sort_nodup ..) ((Finset.mem_sort _).mpr member)
  rw [List.filter_map]
  simp only [Function.comp_def, own]
  rw [List.filter_eq, once]
  rfl

/-- What is shown for the heartbeat of a pool, and what its reaper finds in it, are its names
and its workers if and only if both can be told apart. -/
theorem PoolConfig.readBack_iff (config : PoolConfig) (id : PoolID) (startedAt now : Int64) :
    config.ReadBack id (WorkerPoolHeartbeat.shown id (config.heartbeat startedAt now))
        (splitNames (config.heartbeat startedAt now).jobNames) ↔
      Separable config.names ∧ Separable config.workerIDs := by
  have shownNames : (WorkerPoolHeartbeat.shown id (config.heartbeat startedAt now)).jobNames =
      sortNames (splitNames (joinNames (sortNames config.names))) := rfl
  have shownWorkers : (WorkerPoolHeartbeat.shown id (config.heartbeat startedAt now)).workerIDs =
      sortNames (splitNames (joinNames (sortNames config.workerIDs))) := rfl
  constructor
  · intro read
    exact ⟨read_back_iff.mp (shownNames.symm.trans read.jobNames),
      read_back_iff.mp (shownWorkers.symm.trans read.workerIDs)⟩
  · intro ⟨names, workers⟩
    have found : splitNames (config.heartbeat startedAt now).jobNames = sortNames config.names :=
      splitNames_joinNames (separable_sortNames.mpr names)
    rw [found]
    refine ⟨shownNames.trans (read_back_iff.mpr names),
      shownWorkers.trans (read_back_iff.mpr workers), ?_, ?_⟩
    · ext name
      rw [List.mem_toFinset, List.mem_toFinset, mem_sortNames]
    · intro redis nothing name registered
      exact Store.progress_eq_nil_of_none nothing name (mem_sortNames.mpr registered)

/-- What is shown and found on a store that holds the heartbeat of a pool. -/
theorem PoolConfig.read_back_of_beats (config : PoolConfig) {id : PoolID} {redis : Store}
    {startedAt now : Int64} (beats : redis.heartbeat id = some (config.heartbeat startedAt now))
    (member : id ∈ redis.workerPools)
    (fits : ∀ other, ∀ heartbeat ∈ redis.heartbeat other, heartbeat.Fits)
    {listing : Heartbeat → List (String × String)}
    (listed : ∀ heartbeat : Heartbeat, heartbeat.fields.Perm (listing heartbeat)) :
    ∃ heartbeats shown jobTypes,
      Client.workerPoolHeartbeats listing redis = some heartbeats ∧
      heartbeats.filter (fun heartbeat => heartbeat.workerPoolID = id) = [shown] ∧
      (∀ curJobTypes todo found,
        Reaper.step curJobTypes redis (.reading id todo found) (.jobNames .ok) =
          some (redis, .scanning todo (found ++ [(id, jobTypes)]))) ∧
      (config.ReadBack id shown jobTypes ↔
        Separable config.names ∧ Separable config.workerIDs) := by
  refine ⟨_, redis.shownHeartbeat id, splitNames (config.heartbeat startedAt now).jobNames,
    Client.workerPoolHeartbeats_eq listed fits, Client.filter_shownHeartbeat member, ?_, ?_⟩
  · intro curJobTypes todo found
    simp only [Reaper.step, Reply.deliver, beats]
  · rw [Store.shownHeartbeat, beats]
    exact config.readBack_iff id startedAt now

/-- The heartbeat that a pool has written is read back if and only if its job names and its
worker identifiers can be told apart. -/
theorem PoolConfig.heartbeat_read_back_iff (config : PoolConfig) (id : PoolID) (redis : Store)
    (startedAt now : Int64) (own : (config.heartbeat startedAt now).Fits)
    (others : ∀ other, ∀ heartbeat ∈ redis.heartbeat other, heartbeat.Fits)
    (listing : Heartbeat → List (String × String))
    (listed : ∀ heartbeat : Heartbeat, heartbeat.fields.Perm (listing heartbeat)) :
    let written := Pool.hmsetHeartbeat (Pool.saddPool redis id) id (config.heartbeat startedAt now)
    ∃ heartbeats shown jobTypes,
      Client.workerPoolHeartbeats listing written = some heartbeats ∧
      heartbeats.filter (fun heartbeat => heartbeat.workerPoolID = id) = [shown] ∧
      (∀ curJobTypes todo found,
        Reaper.step curJobTypes written (.reading id todo found) (.jobNames .ok) =
          some (written, .scanning todo (found ++ [(id, jobTypes)]))) ∧
      (config.ReadBack id shown jobTypes ↔
        Separable config.names ∧ Separable config.workerIDs) := by
  have beats : (Pool.hmsetHeartbeat (Pool.saddPool redis id) id
      (config.heartbeat startedAt now)).heartbeat id = some (config.heartbeat startedAt now) :=
    Function.update_self ..
  apply config.read_back_of_beats beats (Finset.mem_insert_self id redis.workerPools) ?_ listed
  intro other heartbeat found
  by_cases same : other = id
  · rw [same, beats] at found
    rwa [← Option.some.inj found]
  · have kept : (Pool.hmsetHeartbeat (Pool.saddPool redis id) id
        (config.heartbeat startedAt now)).heartbeat other = redis.heartbeat other :=
      Function.update_of_ne same ..
    exact others other heartbeat (kept ▸ found)

/-- A pool with two job names and two workers. -/
def PoolConfig.twoTypes : PoolConfig where
  jobTypes := [{ name := "send" }, { name := "mail" }]
  distinct := by simp
  concurrency := 2
  workerIDs := ["1", "2"]
  host := "host"
  pid := 1

/-- Another pool has written its heartbeat. -/
def PoolConfig.otherBeats : Store :=
  Pool.hmsetHeartbeat (Pool.saddPool System.emptyState.redis "B") "B" (twoTypes.heartbeat 1 1)

theorem PoolConfig.heartbeat_read_back_two_pools :
    let written := Pool.hmsetHeartbeat (Pool.saddPool otherBeats "A") "A" (twoTypes.heartbeat 1 2)
    ∃ heartbeats shown jobTypes,
      Client.workerPoolHeartbeats Heartbeat.fields written = some heartbeats ∧
      heartbeats.filter (fun heartbeat => heartbeat.workerPoolID = "A") = [shown] ∧
      Reaper.step [] written (.reading "A" [] []) (.jobNames .ok) =
        some (written, .scanning [] [("A", jobTypes)]) ∧
      twoTypes.ReadBack "A" shown jobTypes := by
  have fits : (twoTypes.heartbeat 1 2).Fits := by constructor <;> decide
  have others : ∀ other, ∀ heartbeat ∈ otherBeats.heartbeat other, heartbeat.Fits := by
    intro other heartbeat present
    by_cases same : other = "B"
    · subst same
      cases present
      constructor <;> decide
    · simp only [otherBeats, Pool.hmsetHeartbeat, Function.update_of_ne same] at present
      exact (Option.not_mem_none heartbeat present).elim
  obtain ⟨heartbeats, shown, jobTypes, listed, once, found, read⟩ :=
    twoTypes.heartbeat_read_back_iff "A" otherBeats 1 2 fits others Heartbeat.fields
      fun heartbeat => List.Perm.refl _
  exact ⟨heartbeats, shown, jobTypes, listed, once, found [] [] [], read.mpr (by decide)⟩

/-- A pool without workers whose job name holds a comma. -/
def PoolConfig.hidden : PoolConfig where
  jobTypes := [{ name := "send,mail" }]
  distinct := by simp
  concurrency := 0
  workerIDs := []
  host := "host"
  pid := 1

/-- The client shows two names that are not registered and a worker that does not exist, and
the reaper does not find the job in progress. -/
theorem PoolConfig.comma_hides_progress :
    let heartbeat := hidden.heartbeat 1 2
    let redis := System.emptyState.redis.lpush (.inProgress "A" "send,mail") .placeholder
    ((WorkerPoolHeartbeat.decode "A" heartbeat.fields).map fun shown =>
        (shown.jobNames, shown.workerIDs)) = some (["mail", "send"], [""]) ∧
      sortNames hidden.names = ["send,mail"] ∧ sortNames hidden.workerIDs = [] ∧
      splitNames heartbeat.jobNames = ["send", "mail"] ∧
      redis.list (.inProgress "A" "send,mail") ≠ [] ∧
      (redis.redisLuaReenqueueJob "A" (splitNames heartbeat.jobNames)).2 = none := by
  decide +kernel
