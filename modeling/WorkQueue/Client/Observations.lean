import WorkQueue.Pool.Observer

/-! # The status of a worker as clients see it

A client reads the fields of a worker's hash in any order. Since a write sets the check-in
only if there is one, the check-in of an earlier job stays in the hash until the hash is
deleted. If a job starts only when the hash shows no check-in, and check-ins have a text and a
time, then right after every write the hash shows exactly the current job with its last
check-in (`Observer.status_exact`).
-/

/-- The integer of 64 bits with some digits. -/
def parseDigits (negative : Bool) (digits : List Char) : Option Int64 :=
  if digits = [] ∨ ¬ digits.all Char.isDigit then none
  else
    let magnitude : ℤ := Nat.ofDigitChars 10 digits 0
    let value := if negative then -magnitude else magnitude
    if -2 ^ 63 ≤ value ∧ value < 2 ^ 63 then some (Int64.ofInt value) else none

/-- Read a decimal integer of 64 bits. -/
def parseInt (text : String) : Option Int64 :=
  match text.toList with
  | '-' :: digits => parseDigits true digits
  | '+' :: digits => parseDigits false digits
  | digits => parseDigits false digits

section ParseInt

theorem isDigit_toDigits (number : ℕ) : ∀ char ∈ Nat.toDigits 10 number, char.isDigit :=
  fun _ member => Nat.isDigit_of_mem_toDigits (by decide) (by decide) member

theorem parseDigits_toDigits {negative : Bool} {number : ℕ} {value : ℤ}
    (same : (if negative then -(number : ℤ) else number) = value) :
    parseDigits negative (Nat.toDigits 10 number) =
      if -2 ^ 63 ≤ value ∧ value < 2 ^ 63 then some (Int64.ofInt value) else none := by
  have digits : ¬ (Nat.toDigits 10 number = [] ∨
      ¬ (Nat.toDigits 10 number).all Char.isDigit = true) := by
    rw [not_or, not_not]
    exact ⟨Nat.toDigits_ne_nil, List.all_eq_true.mpr (isDigit_toDigits number)⟩
  rw [parseDigits, if_neg digits, Nat.ofDigitChars_toDigits (by decide) (by decide)]
  simp only [same]

/-- An integer is read back from its digits if it has 64 bits. -/
theorem parseInt_intDigits (value : ℤ) : parseInt (String.ofList (intDigits value)) =
    if -2 ^ 63 ≤ value ∧ value < 2 ^ 63 then some (Int64.ofInt value) else none := by
  unfold parseInt intDigits
  rw [String.toList_ofList]
  by_cases negative : value < 0
  · rw [if_pos negative]
    refine parseDigits_toDigits ?_
    simp only [↓reduceIte]
    omega
  · rw [if_neg negative]
    have first := isDigit_toDigits value.natAbs
    split
    · next digits minus =>
        rw [minus] at first
        exact absurd (first '-' List.mem_cons_self) (by decide)
    · next digits plus =>
        rw [plus] at first
        exact absurd (first '+' List.mem_cons_self) (by decide)
    · refine parseDigits_toDigits ?_
      simp only [Bool.false_eq_true, ↓reduceIte]
      omega

theorem parseInt_formatInt (value : Int64) : parseInt (formatInt value) = some value := by
  rw [formatInt, parseInt_intDigits, if_pos ⟨value.le_toInt, value.toInt_lt⟩, Int64.ofInt_toInt]

end ParseInt

/-- What a client shows of a worker. -/
structure WorkerObservation where
  workerID : String
  isBusy : Bool := false
  jobName : String := ""
  jobID : String := ""
  startedAt : Int64 := 0
  argsJSON : String := ""
  checkin : String := ""
  checkinAt : Int64 := 0
  deriving DecidableEq

namespace WorkerObservation

/-- Read one field of the hash of a worker. Unknown fields are skipped. -/
def readField (ob : WorkerObservation) (field : String × String) : Option WorkerObservation :=
  let busy := { ob with isBusy := true }
  if field.1 = "job_name" then some { busy with jobName := field.2 }
  else if field.1 = "job_id" then some { busy with jobID := field.2 }
  else if field.1 = "started_at" then
    (parseInt field.2).map fun startedAt => { busy with startedAt }
  else if field.1 = "args" then some { busy with argsJSON := field.2 }
  else if field.1 = "checkin" then some { busy with checkin := field.2 }
  else if field.1 = "checkin_at" then
    (parseInt field.2).map fun checkinAt => { busy with checkinAt }
  else some busy

/-- Read the fields of the hash of a worker in the order in which they come. -/
def decode (workerID : String) (vals : List (String × String)) : Option WorkerObservation :=
  vals.foldlM readField { workerID }

end WorkerObservation

/-- The fields of a hash in some order. -/
structure StatusHash.Lists (hash : StatusHash) (vals : List (String × String)) : Prop where
  distinct : (vals.map Prod.fst).Nodup
  fields : ∀ key value, (key, value) ∈ vals ↔ hash.get key = some value

theorem StatusHash.lists_iff {hash : StatusHash} {vals : List (String × String)} :
    hash.Lists vals ↔ (vals.map Prod.fst).Nodup ∧
      (∀ field ∈ vals, hash.get field.1 = some field.2) ∧
      ∀ key ∈ hash.support, key ∈ vals.map Prod.fst := by
  constructor
  · rintro ⟨distinct, fields⟩
    refine ⟨distinct, fun field => (fields field.1 field.2).mp, fun key member => ?_⟩
    obtain ⟨value, bound⟩ := Option.isSome_iff_exists.mp ((hash.mem_support key).mp member)
    exact List.mem_map_of_mem ((fields key value).mpr bound)
  · rintro ⟨distinct, bound, known⟩
    refine ⟨distinct, fun key value => ⟨bound (key, value), fun held => ?_⟩⟩
    have member := known key ((hash.mem_support key).mpr (by rw [held]; rfl))
    obtain ⟨⟨other, stored⟩, listed, rfl⟩ := List.mem_map.mp member
    obtain rfl := Option.some.inj (held.symm.trans (bound _ listed))
    exact listed

instance (hash : StatusHash) (vals : List (String × String)) : Decidable (hash.Lists vals) :=
  decidable_of_iff _ StatusHash.lists_iff.symm

namespace WorkerObservation

/-- The observation with the values of a hash in place of its own, for given readings of the
times. -/
def filled (ob : WorkerObservation) (startedAt checkinAt : Option Int64)
    (vals : List (String × String)) : WorkerObservation where
  workerID := ob.workerID
  isBusy := ob.isBusy || !vals.isEmpty
  jobName := (vals.lookup "job_name").getD ob.jobName
  jobID := (vals.lookup "job_id").getD ob.jobID
  startedAt := startedAt.getD ob.startedAt
  argsJSON := (vals.lookup "args").getD ob.argsJSON
  checkin := (vals.lookup "checkin").getD ob.checkin
  checkinAt := checkinAt.getD ob.checkinAt

theorem foldlM_readField {vals : List (String × String)} (distinct : (vals.map Prod.fst).Nodup)
    {startedAt checkinAt : Option Int64}
    (started : (vals.lookup "started_at").map parseInt = startedAt.map some)
    (checked : (vals.lookup "checkin_at").map parseInt = checkinAt.map some)
    (ob : WorkerObservation) :
    vals.foldlM readField ob = some (ob.filled startedAt checkinAt vals) := by
  induction vals generalizing ob startedAt checkinAt with
  | nil =>
      cases startedAt with
      | some time => cases started
      | none => cases checkinAt with
        | some time => cases checked
        | none => simp [filled]
  | cons field rest ih =>
      obtain ⟨key, value⟩ := field
      rw [List.map_cons, List.nodup_cons] at distinct
      obtain ⟨absent, distinct⟩ := distinct
      have gone : rest.lookup key = none := by
        rw [List.lookup_eq_none_iff]
        intro entry member
        rw [bne_iff_ne]
        rintro rfl
        exact absent (List.mem_map.mpr ⟨entry, member, rfl⟩)
      rw [List.foldlM_cons]
      by_cases start : key = "started_at"
      · subst start
        simp only [List.lookup_cons_self, Option.map_some] at started
        obtain ⟨time, rfl, read⟩ := Option.map_eq_some_iff.mp started.symm
        have missing : (rest.lookup "started_at").map parseInt =
            (none : Option Int64).map some := by
          rw [gone]
          rfl
        have others := ih distinct missing checked
        simp [readField, ← read, others, filled, List.lookup_cons]
      by_cases check : key = "checkin_at"
      · subst check
        simp only [List.lookup_cons_self, Option.map_some] at checked
        obtain ⟨time, rfl, read⟩ := Option.map_eq_some_iff.mp checked.symm
        have missing : (rest.lookup "checkin_at").map parseInt =
            (none : Option Int64).map some := by
          rw [gone]
          rfl
        have others := ih distinct started missing
        simp [readField, ← read, others, filled, List.lookup_cons]
      rw [List.lookup_cons, beq_eq_false_iff_ne.mpr (Ne.symm start)] at started
      rw [List.lookup_cons, beq_eq_false_iff_ne.mpr (Ne.symm check)] at checked
      have others := ih distinct started checked
      by_cases name : key = "job_name"
      · subst name
        simp [readField, others, filled, gone, List.lookup_cons]
      by_cases id : key = "job_id"
      · subst id
        simp [readField, others, filled, gone, List.lookup_cons]
      by_cases args : key = "args"
      · subst args
        simp [readField, others, filled, gone, List.lookup_cons]
      by_cases text : key = "checkin"
      · subst text
        simp [readField, others, filled, gone, List.lookup_cons]
      have skipped : ∀ known, key ≠ known → ((key, value) :: rest).lookup known =
          rest.lookup known := by
        intro known other
        rw [List.lookup_cons, beq_eq_false_iff_ne.mpr (Ne.symm other)]
      simp [readField, others, filled, start, check, name, id, args, text, skipped]

/-- Looking up a field among those of a hash. -/
theorem lookup_of_lists {hash : StatusHash} {vals : List (String × String)}
    (lists : hash.Lists vals) (key : String) : vals.lookup key = hash.get key := by
  cases found : vals.lookup key with
  | some value =>
      obtain ⟨before, after, rfl, -⟩ := List.lookup_eq_some_iff.mp found
      exact ((lists.fields key value).mp (by simp)).symm
  | none =>
      rw [List.lookup_eq_none_iff] at found
      cases bound : hash.get key with
      | none => rfl
      | some value =>
          have other := found _ ((lists.fields key value).mpr bound)
          simp at other

end WorkerObservation

namespace Observer

/-- The last check-in of a job since a job has started. -/
def lastCheckin (jobID : String) : List Observation → Option (String × Int64)
  | [] => none
  | .started _ _ _ _ _ :: _ => none
  | .checkin _ other checkin checkinAt :: history =>
      if other = jobID then some (checkin, checkinAt) else lastCheckin jobID history
  | .done _ _ _ :: history => lastCheckin jobID history

/-- What should be shown of a worker: nothing if no job is running, and otherwise the job with
its last check-in. -/
def status (workerID : String) (history : List Observation) : Option Started → WorkerObservation
  | none => { workerID }
  | some obv =>
      { workerID
        isBusy := true
        jobName := obv.jobName
        jobID := obv.jobID
        startedAt := obv.startedAt
        argsJSON := argumentsText obv.arguments
        checkin := ((lastCheckin obv.jobID history).map Prod.fst).getD ""
        checkinAt := ((lastCheckin obv.jobID history).map Prod.snd).getD 0 }

/-- The hash shows no check-in. -/
def Unchecked (hash : StatusHash) : Prop :=
  hash.get "checkin" = none ∧ hash.get "checkin_at" = none

instance (hash : StatusHash) : Decidable (Unchecked hash) :=
  inferInstanceAs (Decidable (_ ∧ _))

/-- A job starts when the hash shows no check-in, its arguments can be encoded, and a check-in
has a text and a time. -/
def Tidy (world : World) : Event → Prop
  | .observe (.started jobName jobID startedAt arguments marshals) =>
      Unchecked world.hash ∧
        ({ jobName, jobID, startedAt, arguments, marshals } : Started).argsJSON.isSome
  | .observe (.checkin _ _ checkin checkinAt) => checkin ≠ "" ∧ 0 < checkinAt
  | _ => True

instance (world : World) : (event : Event) → Decidable (Tidy world event)
  | .observe (.started _ _ _ _ _) => inferInstanceAs (Decidable (_ ∧ _))
  | .observe (.checkin _ _ _ _) => inferInstanceAs (Decidable (_ ∧ _))
  | .observe (.done _ _ _) | .tick | .drained => inferInstanceAs (Decidable True)

/-- The current job carries its last check-in, it can be encoded, and as long as it has not
checked in the hash shows no check-in. -/
structure Sound (world : World) (history : List Observation) : Prop where
  checkin : ∀ obv ∈ world.observer.currentStartedObservation,
    (lastCheckin obv.jobID history).getD ("", 0) = (obv.checkin, obv.checkinAt)
  encodes : ∀ obv ∈ world.observer.currentStartedObservation, obv.argsJSON.isSome
  shown : ∀ obv ∈ world.observer.currentStartedObservation,
    obv.Checked ∨ obv.checkin = "" ∧ obv.checkinAt = 0 ∧ Unchecked world.hash

/-- Writing a job without a check-in shows no check-in. -/
theorem unchecked_writeStatus {hash : StatusHash} {obv : Started} (unchecked : Unchecked hash)
    (silent : ¬ obv.Checked) : Unchecked (writeStatus hash (some obv)) := by
  cases encodes : obv.argsJSON with
  | none => simpa only [writeStatus, encodes] using unchecked
  | some argsJSON =>
      have written := written_writeStatus hash encodes
      refine ⟨written.checkin.trans ?_, written.checkinAt.trans ?_⟩
      · rw [if_neg silent, unchecked.1]
      · rw [if_neg silent, unchecked.2]

namespace Sound

variable {world : World} {history : List Observation} {event : Event}

/-- As long as the current job has not checked in, a step keeps check-ins out of the hash. -/
theorem unchecked_step {obv : Started} (unchecked : Unchecked world.hash) (silent : ¬ obv.Checked)
    (current : (step world event).observer.currentStartedObservation = some obv) :
    Unchecked (step world event).hash := by
  cases written : writes world event with
  | false => rwa [hash_of_not_writes written]
  | true =>
      rw [hash_of_writes written, current]
      exact unchecked_writeStatus unchecked silent

/-- A step that leaves the current job alone keeps its check-in in order. -/
theorem keep (sound : Sound world history) {after : List Observation}
    (same : (Observer.step world event).observer.currentStartedObservation =
      world.observer.currentStartedObservation)
    (last : ∀ obv ∈ world.observer.currentStartedObservation,
      lastCheckin obv.jobID after = lastCheckin obv.jobID history) :
    Sound (Observer.step world event) after := by
  refine ⟨?_, ?_, ?_⟩ <;> intro obv current
  · rw [same] at current
    rw [last obv current]
    exact sound.checkin obv current
  · exact sound.encodes obv (same ▸ current)
  · rcases sound.shown obv (same ▸ current) with checked | ⟨text, time, unchecked⟩
    · exact .inl checked
    · refine .inr ⟨text, time, unchecked_step unchecked ?_ current⟩
      rw [Started.Checked, text]
      simp

theorem step (sound : Sound world history) (tidy : Tidy world event) :
    Sound (Observer.step world event)
      (remember history world event (Observer.step world event)) := by
  have after := current_step world event
  cases event with
  | tick | drained => exact sound.keep after fun _ _ => rfl
  | observe observation =>
      cases observation with
      | started jobName jobID startedAt arguments marshals =>
          obtain ⟨unchecked, encodes⟩ := tidy
          refine ⟨?_, ?_, ?_⟩ <;> intro obv current <;>
            obtain rfl := Option.some.inj (after.symm.trans current)
          · rfl
          · exact encodes
          · exact .inr ⟨rfl, rfl, unchecked_step unchecked (by simp [Started.Checked]) after⟩
      | done jobName jobID err =>
          refine ⟨?_, ?_, ?_⟩ <;> intro obv current <;> cases after.symm.trans current
      | checkin jobName jobID checkin checkinAt =>
          cases before : world.observer.currentStartedObservation with
          | none =>
              rw [before] at after
              refine ⟨?_, ?_, ?_⟩ <;> intro obv current <;> cases after.symm.trans current
          | some obv =>
              rw [before] at after
              by_cases own : jobID = obv.jobID
              · subst own
                simp only [observed, Option.map_some, ↓reduceIte] at after
                refine ⟨?_, ?_, ?_⟩ <;> intro other current <;>
                  obtain rfl := Option.some.inj (after.symm.trans current)
                · simp [remember, lastCheckin]
                · exact sound.encodes obv before
                · exact .inl tidy
              · simp only [observed, Option.map_some, own, ↓reduceIte] at after
                refine sound.keep (after.trans before.symm) fun other current => ?_
                obtain rfl := Option.some.inj (before.symm.trans current)
                simp [remember, lastCheckin, own]

theorem last (sound : Sound world history) (obv : Started)
    (current : obv ∈ world.observer.currentStartedObservation) :
    ((lastCheckin obv.jobID history).map Prod.fst).getD "" = obv.checkin ∧
      ((lastCheckin obv.jobID history).map Prod.snd).getD 0 = obv.checkinAt := by
  have same := sound.checkin obv current
  cases recent : lastCheckin obv.jobID history with
  | none | some checkin =>
      rw [recent] at same
      exact Prod.mk.inj same

theorem reachable
    (reached : (system.monitored [] remember).Reachable (fun pair event => Tidy pair.1 event)
      (world, history)) : Sound world history := by
  refine reached.monitored_invariant Sound ?_ ?_
  · rintro _ rfl
    exact ⟨by simp, by simp, by simp⟩
  · rintro source memory event _ _ sound tidy ⟨⟩
    exact sound.step tidy

end Sound

/-- A client reads a job back from the hash to which it was written. -/
theorem decode_written {workerID : String} {before hash : StatusHash} {obv : Started}
    {argsJSON : String} (written : Written before hash obv argsJSON)
    (shown : obv.Checked ∨ obv.checkin = "" ∧ obv.checkinAt = 0 ∧ Unchecked hash)
    {vals : List (String × String)} (lists : hash.Lists vals) :
    WorkerObservation.decode workerID vals =
      some { workerID, isBusy := true, jobName := obv.jobName, jobID := obv.jobID
             startedAt := obv.startedAt, argsJSON, checkin := obv.checkin
             checkinAt := obv.checkinAt } := by
  have values := WorkerObservation.lookup_of_lists lists
  have busy : vals ≠ [] := by
    rintro rfl
    have named := values "job_name"
    rw [written.jobName] at named
    cases named
  have started : (vals.lookup "started_at").map parseInt = (some obv.startedAt).map some := by
    rw [values, written.startedAt, Option.map_some, parseInt_formatInt, Option.map_some]
  rcases shown with checked | ⟨text, time, absent, timeless⟩
  · have checkedAt : (vals.lookup "checkin_at").map parseInt = (some obv.checkinAt).map some := by
      rw [values, written.checkinAt, if_pos checked, Option.map_some, parseInt_formatInt,
        Option.map_some]
    rw [WorkerObservation.decode,
      WorkerObservation.foldlM_readField lists.distinct started checkedAt]
    simp [WorkerObservation.filled, values, busy, written.jobName, written.jobID, written.args,
      written.checkin, checked]
  · have unchecked : (vals.lookup "checkin_at").map parseInt = (none : Option Int64).map some := by
      rw [values, timeless]
      rfl
    rw [WorkerObservation.decode,
      WorkerObservation.foldlM_readField lists.distinct started unchecked]
    simp [WorkerObservation.filled, values, busy, written.jobName, written.jobID, written.args,
      absent, text, time]

/-- In every run in which a job starts only when the hash of its worker shows no check-in, its
arguments can be encoded and check-ins have a text and a time: right after every write, in
whatever order a client reads the fields of the hash, it shows no job if none is current, and
otherwise exactly the current job with the last check-in of that job. -/
theorem status_exact {workerID : String} {world : World} {history : List Observation}
    {event : Event}
    (reached : (system.monitored [] remember).Reachable (fun pair event => Tidy pair.1 event)
      (world, history))
    (tidy : Tidy world event) (written : writes world event) {vals : List (String × String)}
    (lists : (step world event).hash.Lists vals) :
    WorkerObservation.decode workerID vals =
      some (status workerID (remember history world event (step world event))
        (step world event).observer.currentStartedObservation) := by
  have sound := (Sound.reachable reached).step tidy
  generalize remember history world event (step world event) = history' at sound ⊢
  have after := hash_of_writes written
  cases current : (step world event).observer.currentStartedObservation with
  | none =>
      rw [after, current] at lists
      have nothing : vals = [] := by
        refine List.eq_nil_iff_forall_not_mem.mpr fun ⟨key, value⟩ member => ?_
        cases (lists.fields key value).mp member
      rw [nothing]
      rfl
  | some obv =>
      rw [current] at after
      rw [after] at lists
      obtain ⟨argsJSON, encodes⟩ := Option.isSome_iff_exists.mp (sound.encodes obv current)
      have written := written_writeStatus world.hash encodes
      rw [decode_written written (after ▸ sound.shown obv current) lists, status]
      obtain ⟨checkin, checkinAt⟩ := sound.last obv current
      rw [checkin, checkinAt, ← obv.eq_argumentsText encodes]

/-- The status of the worker "abcd" while a job is running. -/
def busyStatus (jobID : String) (startedAt : Int64) (checkin : String) (checkinAt : Int64) :
    WorkerObservation :=
  { workerID := "abcd", isBusy := true, jobName := "foo", jobID, startedAt, checkin, checkinAt }

/-- The fields of the hash of that worker. -/
def busyFields (jobID startedAt checkin checkinAt : String) : List (String × String) :=
  [("job_name", "foo"), ("job_id", jobID), ("started_at", startedAt), ("args", ""),
    ("checkin", checkin), ("checkin_at", checkinAt)]

/-- A job starts and checks in. -/
def checkedIn : List Event :=
  [.observe (.started "foo" "bar" 1425263401 none true),
    .observe (.checkin "foo" "bar" "doin it" 1425263402)]

theorem status_exact_checkin :
    ∃ pair, (system.monitored [] remember).Reachable (fun pair event => Tidy pair.1 event) pair ∧
      (Tidy pair.1 .tick ∧ writes pair.1 .tick) ∧
      (step pair.1 .tick).hash.Lists
        (busyFields "bar" "1425263401" "doin it" "1425263402") ∧
      WorkerObservation.decode "abcd" (busyFields "bar" "1425263401" "doin it" "1425263402") =
        some (busyStatus "bar" 1425263401 "doin it" 1425263402) := by
  obtain ⟨pair, reached, ⟨tidy, written⟩, lists, shown⟩ :=
    @TransitionSystem.Reachable.exists_of_run _ _ (system.monitored [] remember)
      (fun pair event => Tidy pair.1 event) _
      (fun pair => (Tidy pair.1 .tick ∧ writes pair.1 .tick) ∧
        (step pair.1 .tick).hash.Lists (busyFields "bar" "1425263401" "doin it" "1425263402") ∧
        status "abcd" pair.2 (step pair.1 .tick).observer.currentStartedObservation =
          busyStatus "bar" 1425263401 "doin it" 1425263402) _ checkedIn _
      (TransitionSystem.initial_monitored rfl) (by decide +kernel)
  exact ⟨pair, reached, ⟨tidy, written⟩, lists,
    (status_exact reached tidy written lists).trans (congrArg some shown)⟩

/-- A job checks in and is done, and another job starts before the next tick. The status of
the worker shows the job that is running with the check-in of the other one. -/
theorem status_checkin_of_other_job :
    ∃ pair, (system.monitored [] remember).Reachable (fun _ _ => True) pair ∧
      writes pair.1 .tick ∧
      (step pair.1 .tick).hash.Lists
        (busyFields "baz" "1425263403" "doin it" "1425263402") ∧
      WorkerObservation.decode "abcd" (busyFields "baz" "1425263403" "doin it" "1425263402") =
        some (busyStatus "baz" 1425263403 "doin it" 1425263402) ∧
      status "abcd" pair.2 (step pair.1 .tick).observer.currentStartedObservation =
        busyStatus "baz" 1425263403 "" 0 :=
  TransitionSystem.Reachable.exists_of_run
    (checkedIn ++ [.tick, .observe (.done "foo" "bar" none),
      .observe (.started "foo" "baz" 1425263403 none true)])
    (TransitionSystem.initial_monitored rfl) (by decide +kernel)

end Observer
