import WorkQueue.Json.Text

/-! # Keys

The Redis keys of one namespace. The keys made of a job name or a pool identifier
are values of the types below. The key of a unique job is built from the name of the
job and the encoding of a map, and it determines the name (`redisKeyUniqueJob_name`)
although both parts may contain the separator.
-/

/-- The identifier of a worker pool. -/
abbrev PoolID := String

/-- A map of arguments by the fields of its encoding, absent for the nil map. -/
abbrev Args := Option (List (String × Json))

/-- The lists: the work queue of a job name and the jobs a pool has in progress. -/
inductive ListKey where
  | jobs (name : String)
  | inProgress (pool : PoolID) (name : String)
  deriving DecidableEq

/-- The sorted sets of jobs. -/
inductive ZSetKey where
  | retry
  | scheduled
  | dead
  deriving DecidableEq

/-- The namespace with its separator. -/
def redisNamespacePrefix (ns : String) : String :=
  if ns ≠ "" ∧ ns.toList.getLast? ≠ some ':' then ns ++ ":" else ns

/-- What stands after the name in the key of a unique job. -/
def uniqueSuffix : Args → List Char
  | none => []
  | some fields => (Json.obj fields).text ++ ['\n']

/-- The key of a unique job. -/
def redisKeyUniqueJob (ns jobName : String) (args : Args) : String :=
  redisNamespacePrefix ns ++ "unique:" ++ jobName ++ ":" ++ String.ofList (uniqueSuffix args)

theorem toList_redisKeyUniqueJob (ns jobName : String) (args : Args) :
    (redisKeyUniqueJob ns jobName args).toList =
      (redisNamespacePrefix ns ++ "unique:").toList ++
        (jobName.toList ++ ':' :: uniqueSuffix args) := by
  simp [redisKeyUniqueJob]

/-- The key of a unique job is never empty. -/
theorem redisKeyUniqueJob_ne_empty (ns jobName : String) (args : Args) :
    redisKeyUniqueJob ns jobName args ≠ "" := by
  intro empty
  have chars := toList_redisKeyUniqueJob ns jobName args
  rw [empty] at chars
  simp at chars

/-- The keys of two maps under one name agree if and only if what stands after the name does. -/
theorem redisKeyUniqueJob_eq_iff {ns jobName : String} {args others : Args} :
    redisKeyUniqueJob ns jobName args = redisKeyUniqueJob ns jobName others ↔
      uniqueSuffix args = uniqueSuffix others := by
  constructor
  · intro same
    have chars := congrArg String.toList same
    rw [toList_redisKeyUniqueJob, toList_redisKeyUniqueJob] at chars
    exact (List.cons.inj (List.append_cancel_left (List.append_cancel_left chars))).2
  · intro same
    rw [redisKeyUniqueJob, redisKeyUniqueJob, same]

/-- A colon inside the suffix of a key is not followed by another whole suffix. -/
theorem uniqueSuffix_ne_append (args others : Args) (front : List Char) :
    uniqueSuffix args ≠ front ++ ':' :: uniqueSuffix others := by
  intro same
  cases args with
  | none => simp [uniqueSuffix] at same
  | some fields =>
      cases others with
      | none =>
          have lasts := congrArg List.getLast? same
          simp [uniqueSuffix] at lasts
      | some fields' =>
          have texts : (Json.obj fields).text ++ ['\n'] =
              (front ++ ':' :: (Json.obj fields').text) ++ ['\n'] := by
            rw [List.append_assoc, List.cons_append]
            exact same
          exact Json.text_obj_ne_append fields fields' front (List.append_cancel_right texts)

/-- The key of a unique job determines the name of the job. -/
theorem redisKeyUniqueJob_name {ns name other : String} {args others : Args}
    (same : redisKeyUniqueJob ns name args = redisKeyUniqueJob ns other others) :
    name = other := by
  have chars := congrArg String.toList same
  rw [toList_redisKeyUniqueJob, toList_redisKeyUniqueJob] at chars
  have bodies := List.append_cancel_left chars
  apply String.toList_injective
  rcases List.append_eq_append_iff.mp bodies with ⟨gap, longer, rest⟩ | ⟨gap, longer, rest⟩
  · cases gap with
    | nil => rw [longer, List.append_nil]
    | cons char gap =>
        rw [List.cons_append] at rest
        obtain ⟨rfl, tails⟩ := List.cons.inj rest
        exact (uniqueSuffix_ne_append _ _ _ tails).elim
  · cases gap with
    | nil => rw [longer, List.append_nil]
    | cons char gap =>
        rw [List.cons_append] at rest
        obtain ⟨rfl, tails⟩ := List.cons.inj rest
        exact (uniqueSuffix_ne_append _ _ _ tails).elim

/-- The suffixes of two maps agree if and only if both maps are nil or both are encoded by
the same text. -/
theorem uniqueSuffix_eq_iff {args others : Args} :
    uniqueSuffix args = uniqueSuffix others ↔
      (args = none ∧ others = none) ∨
        ∃ fields others', args = some fields ∧ others = some others' ∧
          (Json.obj fields).text = (Json.obj others').text := by
  cases args with
  | none => cases others with
    | none => simp
    | some fields => simp [uniqueSuffix]
  | some fields => cases others with
    | none | some others' => simp [uniqueSuffix]

/-- Keys of unique jobs agree if and only if the names agree and so do the maps: both nil, or
both encoded by the same text. -/
theorem uniqueKeys_agree_iff (ns name other : String) (args others : Args) :
    redisKeyUniqueJob ns name args = redisKeyUniqueJob ns other others ↔
      name = other ∧ ((args = none ∧ others = none) ∨
        ∃ fields others', args = some fields ∧ others = some others' ∧
          (Json.obj fields).text = (Json.obj others').text) := by
  rw [← uniqueSuffix_eq_iff]
  constructor
  · intro same
    obtain rfl := redisKeyUniqueJob_name same
    exact ⟨rfl, redisKeyUniqueJob_eq_iff.mp same⟩
  · rintro ⟨rfl, suffixes⟩
    exact redisKeyUniqueJob_eq_iff.mpr suffixes
