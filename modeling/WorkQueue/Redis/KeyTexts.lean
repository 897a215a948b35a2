import WorkQueue.Foundation.Splitting
import WorkQueue.Redis.Keys

/-! # The texts of the keys

The server sees keys as texts. All texts of one namespace begin with its prefix, and those that
belong to a job name are the text of its queue followed by a colon and more. A job name may
contain colons as well, so the queue of one name can have the text of a key that belongs to
another name. There are no other clashes, as long as pool identifiers have no colons and the
keys of unique jobs are those of the namespace (`Key.text_eq_iff`): names that do not end in one
of the reserved words keep all their keys apart (`Key.text_injective`).
-/

/-- The set of the known job names. -/
def redisKeyKnownJobs (ns : String) : String := redisNamespacePrefix ns ++ "known_jobs"

/-- What the texts of all queues begin with. -/
def redisKeyJobsPrefix (ns : String) : String := redisNamespacePrefix ns ++ "jobs:"

def redisKeyJobs (ns jobName : String) : String := redisKeyJobsPrefix ns ++ jobName

def redisKeyJobsInProgress (ns poolID jobName : String) : String :=
  redisKeyJobs ns jobName ++ ":" ++ poolID ++ ":inprogress"

def redisKeyRetry (ns : String) : String := redisNamespacePrefix ns ++ "retry"

def redisKeyDead (ns : String) : String := redisNamespacePrefix ns ++ "dead"

def redisKeyScheduled (ns : String) : String := redisNamespacePrefix ns ++ "scheduled"

def redisKeyWorkerObservation (ns workerID : String) : String :=
  redisNamespacePrefix ns ++ "worker:" ++ workerID

def redisKeyWorkerPools (ns : String) : String := redisNamespacePrefix ns ++ "worker_pools"

def redisKeyHeartbeat (ns workerPoolID : String) : String :=
  redisNamespacePrefix ns ++ "worker_pools:" ++ workerPoolID

def redisKeyJobsPaused (ns jobName : String) : String := redisKeyJobs ns jobName ++ ":paused"

def redisKeyJobsLock (ns jobName : String) : String := redisKeyJobs ns jobName ++ ":lock"

def redisKeyJobsLockInfo (ns jobName : String) : String := redisKeyJobs ns jobName ++ ":lock_info"

def redisKeyJobsConcurrency (ns jobName : String) : String :=
  redisKeyJobs ns jobName ++ ":max_concurrency"

def redisKeyLastPeriodicEnqueue (ns : String) : String :=
  redisNamespacePrefix ns ++ "last_periodic_enqueue"

/-- The keys of one namespace. The key of a unique job is carried by the job as a text. -/
inductive Key where
  | list (key : ListKey)
  | zset (key : ZSetKey)
  | paused (name : String)
  | lock (name : String)
  | lockInfo (name : String)
  | concurrency (name : String)
  | unique (key : String)
  | knownJobs
  | workerPools
  | heartbeat (pool : PoolID)
  | observation (worker : String)
  | lastPeriodicEnqueue
  deriving DecidableEq

/-- The text of a list. -/
def ListKey.text (ns : String) : ListKey → String
  | .jobs name => redisKeyJobs ns name
  | .inProgress pool name => redisKeyJobsInProgress ns pool name

/-- The text of a sorted set. -/
def ZSetKey.text (ns : String) : ZSetKey → String
  | .retry => redisKeyRetry ns
  | .scheduled => redisKeyScheduled ns
  | .dead => redisKeyDead ns

namespace Key

/-- The text of a key. -/
def text (ns : String) : Key → String
  | .list key => key.text ns
  | .zset key => key.text ns
  | .paused name => redisKeyJobsPaused ns name
  | .lock name => redisKeyJobsLock ns name
  | .lockInfo name => redisKeyJobsLockInfo ns name
  | .concurrency name => redisKeyJobsConcurrency ns name
  | .unique key => key
  | .knownJobs => redisKeyKnownJobs ns
  | .workerPools => redisKeyWorkerPools ns
  | .heartbeat pool => redisKeyHeartbeat ns pool
  | .observation worker => redisKeyWorkerObservation ns worker
  | .lastPeriodicEnqueue => redisKeyLastPeriodicEnqueue ns

/-- The words that the keys of a job name end in, except for its queue. -/
def reserved : List String := ["inprogress", "paused", "lock", "lock_info", "max_concurrency"]

/-- What the text of a key that belongs to a job name, other than its queue, would be as the
name of a queue. -/
def spelled : Key → Option String
  | .list (.inProgress pool name) => some (name ++ ":" ++ pool ++ ":inprogress")
  | .paused name => some (name ++ ":paused")
  | .lock name => some (name ++ ":lock")
  | .lockInfo name => some (name ++ ":lock_info")
  | .concurrency name => some (name ++ ":max_concurrency")
  | _ => none

/-- What stands behind the common beginning of all queues, for the keys of job names. -/
def path : Key → Option String
  | .list (.jobs name) => some name
  | key => key.spelled

/-- A pool identifier in the key has no colons, and the key of a unique job is one of the
namespace. -/
def Tidy (ns : String) : Key → Prop
  | .list (.inProgress pool _) => ':' ∉ pool.toList
  | .unique key => (redisNamespacePrefix ns ++ "unique:").toList <+: key.toList
  | _ => True

theorem exists_rest {ns key : String} (tidy : (Key.unique key).Tidy ns) :
    ∃ rest, key = redisNamespacePrefix ns ++ "unique:" ++ rest := by
  obtain ⟨rest, same⟩ := tidy
  exact ⟨String.ofList rest, String.toList_inj.mp (by simpa using same.symm)⟩

/-- A job name that does not spell another key. -/
def Plain (name : String) : Prop := ∀ word ∈ reserved, ¬ ':' :: word.toList <:+ name.toList

instance (name : String) : Decidable (Plain name) :=
  inferInstanceAs (Decidable (∀ word ∈ reserved, ¬ ':' :: word.toList <:+ name.toList))

section Reading

/-- The text of a key behind the prefix of the namespace. -/
def remainder (ns : String) : Key → List Char
  | .unique key => key.toList.drop (redisNamespacePrefix ns).toList.length
  | key => (key.text "").toList

/-- What a text behind the prefix of the namespace is read as: the path of a key that belongs
to a job name, or another key. -/
def read (ns : String) (chars : List Char) : Option (List Char ⊕ Key) :=
  if ['j', 'o', 'b', 's', ':'] <+: chars then some (.inl (chars.drop 5))
  else if ['u', 'n', 'i', 'q', 'u', 'e', ':'] <+: chars then
    some (.inr (.unique (redisNamespacePrefix ns ++ String.ofList chars)))
  else if ['w', 'o', 'r', 'k', 'e', 'r', ':'] <+: chars then
    some (.inr (.observation (String.ofList (chars.drop 7))))
  else if ['w', 'o', 'r', 'k', 'e', 'r', '_', 'p', 'o', 'o', 'l', 's', ':'] <+: chars then
    some (.inr (.heartbeat (String.ofList (chars.drop 13))))
  else
    [Key.zset .retry, .zset .scheduled, .zset .dead, .knownJobs, .workerPools,
      .lastPeriodicEnqueue].find? (fun key => (key.text "").toList = chars) |>.map .inr

/-- How a key is read. -/
def shape (key : Key) : List Char ⊕ Key :=
  match key.path with
  | some path => .inl path.toList
  | none => .inr key

theorem redisNamespacePrefix_empty : redisNamespacePrefix "" = "" := rfl

/-- A text is the prefix of the namespace and a remainder. -/
theorem toList_text {ns : String} {key : Key} (tidy : key.Tidy ns) :
    (key.text ns).toList = (redisNamespacePrefix ns).toList ++ key.remainder ns := by
  rcases key with (_ | _) | (_ | _ | _) | _ | _ | _ | _ | _ | _ | _ | _ | _ | _
  case unique =>
    obtain ⟨rest, rfl⟩ := exists_rest tidy
    simp [text, remainder]
  all_goals
    simp [remainder, text, ListKey.text, ZSetKey.text, redisKeyJobs, redisKeyJobsPrefix,
      redisKeyJobsInProgress, redisKeyRetry, redisKeyScheduled, redisKeyDead, redisKeyJobsPaused,
      redisKeyJobsLock, redisKeyJobsLockInfo, redisKeyJobsConcurrency, redisKeyKnownJobs,
      redisKeyWorkerPools, redisKeyHeartbeat, redisKeyWorkerObservation,
      redisKeyLastPeriodicEnqueue, redisNamespacePrefix_empty]

theorem read_remainder {ns : String} {key : Key} (tidy : key.Tidy ns) :
    read ns (key.remainder ns) = some key.shape := by
  rcases key with (_ | _) | (_ | _ | _) | _ | _ | _ | _ | _ | _ | _ | _ | _ | _
  case unique =>
    obtain ⟨rest, rfl⟩ := exists_rest tidy
    have joined : "u" ++ ("n" ++ ("i" ++ ("q" ++ ("u" ++ ("e" ++ (":" ++ rest)))))) =
        "unique:" ++ rest := String.toList_inj.mp (by simp)
    simp [read, remainder, shape, path, spelled, String.append_assoc, joined]
  all_goals
    simp [read, remainder, shape, path, spelled, text, ListKey.text, ZSetKey.text, redisKeyJobs,
      redisKeyJobsPrefix, redisKeyJobsInProgress, redisKeyRetry, redisKeyScheduled, redisKeyDead,
      redisKeyJobsPaused, redisKeyJobsLock, redisKeyJobsLockInfo, redisKeyJobsConcurrency,
      redisKeyKnownJobs, redisKeyWorkerPools, redisKeyHeartbeat, redisKeyWorkerObservation,
      redisKeyLastPeriodicEnqueue, redisNamespacePrefix_empty]

/-- A key that belongs to a job name is a path behind the beginning of all queues. -/
theorem text_of_path {key : Key} {path : String} (spells : key.path = some path) (ns : String) :
    key.text ns = redisKeyJobsPrefix ns ++ path := by
  rcases key with (_ | _) | _ | _ | _ | _ | _ | _ | _ | _ | _ | _ | _ <;>
    simp only [Key.path, spelled, Option.some.injEq, reduceCtorEq] at spells <;> subst spells <;>
    simp [text, ListKey.text, redisKeyJobs, redisKeyJobsInProgress, redisKeyJobsPaused,
      redisKeyJobsLock, redisKeyJobsLockInfo, redisKeyJobsConcurrency, String.append_assoc]

/-- Texts of one namespace agree exactly if they are read in the same way. -/
theorem text_eq_iff_shape {ns : String} {key other : Key} (tidy : key.Tidy ns)
    (tidy' : other.Tidy ns) : key.text ns = other.text ns ↔ key.shape = other.shape := by
  constructor
  · intro same
    have chars := congrArg String.toList same
    rw [toList_text tidy, toList_text tidy'] at chars
    have readings := congrArg (read ns) (List.append_cancel_left chars)
    rw [read_remainder tidy, read_remainder tidy'] at readings
    exact Option.some.inj readings
  · intro same
    unfold shape at same
    cases first : key.path with
    | none => cases second : other.path with
      | none =>
          rw [first, second] at same
          rw [Sum.inr.inj same]
      | some path => simp [first, second] at same
    | some path => cases second : other.path with
      | none => simp [first, second] at same
      | some path' =>
          rw [first, second] at same
          rw [text_of_path first, text_of_path second, String.toList_inj.mp (Sum.inl.inj same)]

end Reading

section Clashes

/-- The word at the end of a key that belongs to a job name, and what stands before it. -/
def ending : Key → Option (List Char × List Char)
  | .list (.inProgress pool name) =>
      some (name.toList ++ ':' :: pool.toList, "inprogress".toList)
  | .paused name => some (name.toList, "paused".toList)
  | .lock name => some (name.toList, "lock".toList)
  | .lockInfo name => some (name.toList, "lock_info".toList)
  | .concurrency name => some (name.toList, "max_concurrency".toList)
  | _ => none

theorem ending_of_spelled {key : Key} {path : String} (spells : key.spelled = some path) :
    ∃ front word, key.ending = some (front, word.toList) ∧ word ∈ reserved ∧
      path.toList = front ++ ':' :: word.toList := by
  rcases key with (_ | _) | _ | _ | _ | _ | _ | _ | _ | _ | _ | _ | _ <;>
    simp only [spelled, Option.some.injEq, reduceCtorEq] at spells <;> subst spells <;>
    exact ⟨_, _, rfl, by decide, by simp⟩

theorem colon_notMem_reserved : ∀ word ∈ reserved, ':' ∉ word.toList := by decide

/-- The ending of a key determines it. -/
theorem eq_of_ending {ns : String} {key other : Key} (tidy : key.Tidy ns)
    (tidy' : other.Tidy ns) (present : key.ending.isSome) (same : key.ending = other.ending) :
    key = other := by
  rcases key with (_ | ⟨pool, name⟩) | _ | _ | _ | _ | _ | _ | _ | _ | _ | _ | _ <;>
    simp only [ending, Option.isSome_none, Bool.false_eq_true] at present <;>
    rcases other with (_ | ⟨pool', name'⟩) | _ | _ | _ | _ | _ | _ | _ | _ | _ | _ | _ <;>
    simp [ending] at same
  · obtain ⟨names, pools⟩ := Splitting.eq_of_last_separator tidy tidy' same
    rw [String.toList_inj.mp names, String.toList_inj.mp pools]
  all_goals rw [String.toList_inj.mp same]

/-- Keys other than queues spell the same only if they are the same. -/
theorem eq_of_spelled {ns : String} {key other : Key} {path : String} (tidy : key.Tidy ns)
    (tidy' : other.Tidy ns) (spells : key.spelled = some path)
    (spells' : other.spelled = some path) : key = other := by
  obtain ⟨front, word, ends, listed, split⟩ := ending_of_spelled spells
  obtain ⟨front', word', ends', listed', split'⟩ := ending_of_spelled spells'
  obtain ⟨fronts, words⟩ := Splitting.eq_of_last_separator (colon_notMem_reserved word listed)
    (colon_notMem_reserved word' listed') (split.symm.trans split')
  refine eq_of_ending tidy tidy' (by rw [ends]; rfl) ?_
  rw [ends, ends', fronts, words]

/-- A key that belongs to a job name is a queue or spells its path. -/
theorem path_eq_some_iff {key : Key} {path : String} :
    key.path = some path ↔ key = .list (.jobs path) ∨ key.spelled = some path := by
  rcases key with (_ | _) | _ | _ | _ | _ | _ | _ | _ | _ | _ | _ | _ <;> simp [Key.path, spelled]

/-- When keys of one namespace have the same text: if they are the same key, or one is the
queue of a job name that spells the other. -/
theorem text_eq_iff {ns : String} {key other : Key} (tidy : key.Tidy ns)
    (tidy' : other.Tidy ns) :
    key.text ns = other.text ns ↔
      key = other ∨ (∃ name, key = .list (.jobs name) ∧ other.spelled = some name) ∨
        ∃ name, other = .list (.jobs name) ∧ key.spelled = some name := by
  constructor
  · intro same
    have shapes := (text_eq_iff_shape tidy tidy').mp same
    unfold shape at shapes
    cases first : key.path with
    | none =>
        cases second : other.path with
        | none =>
            rw [first, second] at shapes
            exact .inl (Sum.inr.inj shapes)
        | some path => simp [first, second] at shapes
    | some path =>
        cases second : other.path with
        | none => simp [first, second] at shapes
        | some path' =>
            rw [first, second] at shapes
            obtain rfl := String.toList_inj.mp (Sum.inl.inj shapes)
            -- Two queues or two other keys on one path agree; the rest are the clashes.
            rcases path_eq_some_iff.mp first with rfl | spells
            · rcases path_eq_some_iff.mp second with rfl | spells'
              · exact .inl rfl
              · exact .inr (.inl ⟨_, rfl, spells'⟩)
            · rcases path_eq_some_iff.mp second with rfl | spells'
              · exact .inr (.inr ⟨_, rfl, spells⟩)
              · exact .inl (eq_of_spelled tidy tidy' spells spells')
  · rintro (rfl | ⟨name, rfl, spells⟩ | ⟨name, rfl, spells⟩)
    · rfl
    · rw [text_of_path rfl, text_of_path (path_eq_some_iff.mpr (.inr spells))]
    · rw [text_of_path (path_eq_some_iff.mpr (.inr spells)), text_of_path rfl]

/-- The queue of a job name that ends in a reserved word is the lock of another name. -/
theorem text_eq_iff_lock :
    (lock "mail").text "work" = (Key.list (.jobs "mail:lock")).text "work" :=
  (@text_eq_iff "work" (lock "mail") (.list (.jobs "mail:lock")) trivial trivial).mpr
    (.inr (.inr ⟨"mail:lock", rfl, rfl⟩))

/-- A plain name spells no other key. -/
theorem Plain.ne_spelled {name : String} (plain : Plain name) (key : Key) :
    key.spelled ≠ some name := by
  intro spells
  obtain ⟨front, word, -, listed, split⟩ := ending_of_spelled spells
  exact plain word listed ⟨front, split.symm⟩

/-- A key whose names and pools keep it apart from all others. -/
def Proper (ns : String) : Key → Prop
  | .list (.jobs name) => Plain name
  | .list (.inProgress pool name) => ':' ∉ pool.toList ∧ Plain name
  | .paused name | .lock name | .lockInfo name | .concurrency name => Plain name
  | .unique key => (redisNamespacePrefix ns ++ "unique:").toList <+: key.toList
  | _ => True

instance (ns : String) : DecidablePred (Proper ns)
  | .list (.jobs name) | .paused name | .lock name | .lockInfo name | .concurrency name =>
      inferInstanceAs (Decidable (Plain name))
  | .list (.inProgress pool name) => inferInstanceAs (Decidable (':' ∉ pool.toList ∧ Plain name))
  | .unique key => inferInstanceAs (Decidable
      ((redisNamespacePrefix ns ++ "unique:").toList <+: key.toList))
  | .zset _ | .knownJobs | .workerPools | .heartbeat _ | .observation _ | .lastPeriodicEnqueue =>
      inferInstanceAs (Decidable True)

theorem Proper.tidy {ns : String} {key : Key} (proper : key.Proper ns) : key.Tidy ns := by
  rcases key with (_ | _) | _ | _ | _ | _ | _ | _ | _ | _ | _ | _ | _ <;>
    first
      | exact proper
      | exact proper.1
      | trivial

/-- Proper keys have different texts. -/
theorem text_injective {ns : String} {key other : Key} (proper : key.Proper ns)
    (proper' : other.Proper ns) (same : key.text ns = other.text ns) : key = other := by
  rcases (text_eq_iff proper.tidy proper'.tidy).mp same with
    same | ⟨name, rfl, spells⟩ | ⟨name, rfl, spells⟩
  · exact same
  · exact (Plain.ne_spelled proper _ spells).elim
  · exact (Plain.ne_spelled proper' _ spells).elim

/-- The namespace is followed by a colon unless it is empty or ends in one. -/
theorem toList_redisNamespacePrefix {ns : String} (named : ns ≠ "") (plain : ':' ∉ ns.toList) :
    (redisNamespacePrefix ns).toList = ns.toList ++ [':'] := by
  have open_ended : ns.toList.getLast? ≠ some ':' := fun last =>
    plain (List.mem_of_getLast? last)
  rw [redisNamespacePrefix, if_pos ⟨named, open_ended⟩, String.toList_append]
  rfl

/-- Namespaces without colons share no key. -/
theorem text_ne_of_ne {ns ns' : String} (named : ns ≠ "") (named' : ns' ≠ "")
    (plain : ':' ∉ ns.toList) (plain' : ':' ∉ ns'.toList) (different : ns ≠ ns')
    {key other : Key} (tidy : key.Tidy ns) (tidy' : other.Tidy ns') :
    key.text ns ≠ other.text ns' := by
  intro same
  have chars := congrArg String.toList same
  rw [toList_text tidy, toList_text tidy', toList_redisNamespacePrefix named plain,
    toList_redisNamespacePrefix named' plain', List.append_assoc, List.append_assoc] at chars
  exact different (String.toList_inj.mp (Splitting.eq_of_first_separator plain plain' chars).1)

end Clashes

end Key
