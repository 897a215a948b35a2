import WorkQueue.Unique.Pending

/-! # The arguments that a handler sees

A call on a unique key that is set leaves the queued job alone and stores its own job under
the key, or a placeholder if the key determines the arguments. The worker that starts the
job reads the key and deletes it in two steps. The handler sees the arguments of the last
call (`System.handler_sees_last_call`) as long as no call comes between the two steps, a
call that stores the placeholder agrees with the queued job, and a queued job that is
needed survives the detour through the scheduled jobs.
-/

namespace RawJSON

/-- The arguments of a payload, if they can be read. -/
def args? (raw : RawJSON) : Option Args := Job.decodeArgs (raw.field "args")

/-- The arguments of a payload survive a detour. -/
def SurvivesDetour (raw : RawJSON) : Prop := ∀ args ∈ raw.field "args", Cjson.survives args

instance (raw : RawJSON) : Decidable raw.SurvivesDetour :=
  inferInstanceAs (Decidable (∀ args ∈ raw.field "args", Cjson.survives args))

theorem args?_of_newJob {raw : RawJSON} {source target : ListKey} {job : FetchedJob}
    (unambiguous : raw.Unambiguous) (decoded : newJob raw source target = some job) :
    raw.args? = some job.args := by
  obtain ⟨-, -, -, document, rfl, read⟩ := newJob_eq_some decoded
  exact (Job.readFrom_of_decode unambiguous read).args

theorem args?_serialize {job : Job} (fit : (Job.encodeArgs job.args).numbersFit) :
    (json job.serialize).args? = some job.normalise.args :=
  (Job.readFrom_of_decode job.unambiguous_serialize (job.decode_serialize fit)).args

/-- Arguments that survive a detour read the same after a script has rewritten them. -/
theorem args?_rewritten {raw written : RawJSON} {lua edited : Json} {args : Args}
    (decoded : Cjson.decode raw = some lua) (encoded : Cjson.encode edited = some written)
    (kept : edited.field "args" = lua.field "args") (survives : raw.SurvivesDetour)
    (read : raw.args? = some args) : written.args? = some args := by
  have field : written.field "args" = (raw.field "args").map Cjson.detour := by
    rw [Cjson.field_encode encoded, kept, Cjson.field_decode decoded, Option.map_map]
    rfl
  rw [args?] at read ⊢
  rw [field]
  cases found : raw.field "args" with
  | none =>
      rw [found] at read
      exact read
  | some value =>
      rw [found] at read
      have fit := survives value found
      cases value with
      | null => exact read
      | obj fields =>
          simp only [Job.decodeArgs, Job.assignArgs, Option.getD_none, List.nil_append] at read
          split at read
          · next inside =>
              rw [← read]
              exact (Cjson.decodeArgs_detour_iff { name := "", id := "", args := some fields }
                inside).mpr fit
          · cases read
      | bool flag | num number | str text | arr items => cases read

end RawJSON

theorem Worker.uniqueKey_ne_empty (ns : String) (job : Job) : uniqueKey ns job ≠ "" := by
  unfold uniqueKey
  split
  · exact redisKeyUniqueJob_ne_empty _ _ _
  · assumption

namespace System

variable {deployment : Deployment} {state next : State} {event : Event} {key : String}
  {memory : Option Args}

/-- Remember the arguments of the last call on a key. -/
def lastSent (ns key : String) (memory : Option Args) (_ : State) (event : Event) (_ : State) :
    Option Args := (sent? ns key event).or memory

/-- An exclusive step in which a call on the key finds no worker between reading and
deleting the key, and no waiting job with other arguments if it only stores the
placeholder; in which a requeuer rewrites a waiting job under a placeholder only if its
arguments survive; and in which workers are answered. -/
def Coordinated (deployment : Deployment) (key : String) (state : State) (event : Event) : Prop :=
  Exclusive deployment state event ∧
    match event with
    | .enqueuer (.enqueueUnique name id now args keyMap _) =>
        (Enqueuer.uniqueJob deployment.ns name id now args keyMap).uniqueKey = key →
          (Job.encodeArgs args).numbersFit ∧ ∀ place, ∀ candidate ∈ pending key state place,
            candidate.read = none ∧ (keyMap = none → candidate.payload.args? =
              some (Enqueuer.uniqueJob deployment.ns name id now args keyMap).normalise.args)
    | .pool _ (.requeue .scheduled now) => state.redis.unique key = some .placeholder →
        ∀ raw ∈ ((state.redis.zset .scheduled).upTo now.toInt).head?, raw.isFresh key →
          raw.SurvivesDetour
    | .pool _ (.worker _ (.getUnique reply)) => reply = .ok
    | .pool _ (.worker _ (.delUnique reply)) => reply = .ok
    | _ => True

/-- The value of the key and the waiting job carry the arguments of the last call. -/
structure Current (key : String) (state : State) (memory : Option Args) : Prop where
  waiting : Sole (pending key state) fun candidate => state.redis.unique key ≠ none ∧
    (∀ value ∈ candidate.read, state.redis.unique key = some value) ∧
    (state.redis.unique key = some .placeholder → candidate.payload.args? = memory)
  called : state.redis.unique key ≠ none → memory ≠ none
  stored : ∀ value, state.redis.unique key = some value → value = .placeholder ∨
    ∃ job : Job, value = .json job.serialize ∧ (Job.encodeArgs job.args).numbersFit ∧
      memory = some job.normalise.args

namespace Current

/-- Nothing waits and the key keeps its value or is deleted. -/
theorem of_nothing (current : Current key state memory) (nothing : pending key next = 0)
    (kept : next.redis.unique key = state.redis.unique key ∨ next.redis.unique key = none) :
    Current key next memory where
  waiting := .inl nothing
  called := by
    rcases kept with same | absent
    · rw [same]
      exact current.called
    · exact fun present => (present absent).elim
  stored := by
    rcases kept with same | absent
    · rw [same]
      exact current.stored
    · rw [absent]
      exact fun _ impossible => nomatch impossible

/-- What a call stores under the key. -/
theorem stored_call {name id : String} {now : Int64} {args keyMap : Args}
    (fit : (Job.encodeArgs args).numbersFit)
    (set : next.redis.unique key = some (Enqueuer.updatedValue keyMap
      (Enqueuer.uniqueJob deployment.ns name id now args keyMap))) :
    ∀ value, next.redis.unique key = some value → value = .placeholder ∨
      ∃ job : Job, value = .json job.serialize ∧ (Job.encodeArgs job.args).numbersFit ∧
        some (Enqueuer.uniqueJob deployment.ns name id now args keyMap).normalise.args =
          some job.normalise.args := by
  intro value present
  rw [set] at present
  obtain rfl := Option.some.inj present
  cases keyMap with
  | none => exact .inl rfl
  | some fields => exact .inr ⟨_, rfl, fit, rfl⟩

/-- A waiting job goes on. -/
theorem carry (current : Current key state memory) {before after : Candidate}
    {place target : WaitingPlace} {rest : WaitingPlace → Multiset Candidate}
    (coordinated : Coordinated deployment key state event)
    (carried : Carried key state event before after)
    (source : pending key state = rest + Pi.single place {before})
    (moved : pending key next = rest + Pi.single target {after})
    (kept : next.redis.unique key = state.redis.unique key) : Current key next memory := by
  obtain ⟨nothing, present, reads, agrees⟩ := current.waiting.take source
  refine ⟨?_, kept ▸ current.called, kept ▸ current.stored⟩
  rw [moved, nothing, zero_add, kept]
  refine .single target ⟨present, ?_⟩
  cases carried with
  | fetched => exact ⟨reads, agrees⟩
  | read found =>
      refine ⟨?_, agrees⟩
      intro value same
      rw [← Option.some.inj same]
      exact found
  | @requeued id now raw written lua requeue due fresh decoded encoded =>
      subst requeue
      refine ⟨reads, ?_⟩
      intro placeholder
      obtain ⟨args, sent⟩ := Option.ne_none_iff_exists'.mp (current.called present)
      have survives := coordinated.2 placeholder raw due fresh
      rw [sent]
      exact RawJSON.args?_rewritten decoded encoded
        (Store.field_requeuedJob now lua (by decide)) survives ((agrees placeholder).trans sent)

theorem step (current : Current key state memory) (sound : Sound deployment state)
    (nonempty : key ≠ "") (coordinated : Coordinated deployment key state event)
    (stepped : System.step deployment state event = some next) :
    Current key next (lastSent deployment.ns key memory state event next) := by
  have reserved : Reserved key state := current.waiting.mono fun _ _ _ good => good.1
  have silent : sent? deployment.ns key event = none →
      lastSent deployment.ns key memory state event next = memory := by
    intro nothing
    rw [lastSent, nothing, Option.none_or]
  cases step_flow sound nonempty coordinated.1.1 stepped with
  | same quiet waiting kept =>
      rw [silent quiet]
      refine ⟨?_, kept ▸ current.called, kept ▸ current.stored⟩
      rw [waiting, kept]
      exact current.waiting
  | @enqueued name id now args keyMap runAt place call own absent more set =>
      subst call
      have fit := (coordinated.2 own).1
      rw [lastSent, sent?, if_pos own, Option.some_or]
      refine ⟨?_, fun _ => by simp, stored_call fit set⟩
      rw [more, reserved.pending_eq_zero absent, zero_add]
      exact .single place ⟨by rw [set]; simp, fun _ impossible => (by cases impossible),
        fun _ => RawJSON.args?_serialize fit⟩
  | repeated _ _ absent _ waits => exact (waits (reserved.pending_eq_zero absent)).elim
  | @updated name id now args keyMap runAt call own present waiting set =>
      subst call
      obtain ⟨fit, others⟩ := coordinated.2 own
      rw [lastSent, sent?, if_pos own, Option.some_or]
      refine ⟨?_, fun _ => by simp, stored_call fit set⟩
      rw [waiting]
      refine current.waiting.mono fun place candidate member _ => ?_
      obtain ⟨unread, agrees⟩ := others place candidate member
      refine ⟨by rw [set]; simp, by simp [unread], ?_⟩
      intro placeholder
      refine agrees ?_
      rw [set] at placeholder
      cases keyMap with
      | none => rfl
      | some fields => cases placeholder
  | moved quiet carried before after kept =>
      rw [silent quiet]
      exact current.carry coordinated carried before after kept
  | dropped quiet _ fewer kept =>
      rw [silent quiet]
      exact current.of_nothing (reserved.take fewer).1 (.inl kept)
  | deleted quiet _ _ fewer absent =>
      rw [silent quiet]
      exact current.of_nothing (reserved.take fewer).1 (.inr absent)
  | stale quiet deleter own failed waiting absent =>
      rw [silent quiet]
      have nothing := coordinated.1.pending_eq_zero sound deleter own failed
      exact current.of_nothing (waiting.trans nothing) (.inr absent)

theorem reachable (nonempty : key ≠ "")
    (reached : ((system deployment).monitored none (lastSent deployment.ns key)).Reachable
      (fun pair event => Coordinated deployment key pair.1 event) (state, memory)) :
    Current key state memory := by
  refine reached.monitored_invariant (Current key) ?_ ?_
  · intro start begun
    refine ⟨.inl (pending_initial begun), ?_, ?_⟩
    · exact fun present => (present (begun.unique key)).elim
    · intro value present
      rw [begun.unique] at present
      cases present
  · intro source memory event target reachedSource current coordinated stepped
    have plain := (TransitionSystem.Reachable.of_monitored reachedSource).mono
      fun _ _ (coordinated : Coordinated deployment key _ _) => coordinated.1.1
    exact current.step (Sound.reachable plain) nonempty coordinated stepped

end Current

/-- What a worker holds waits with it. -/
theorem mem_pending_of_worker {id : PoolID} {index : ℕ} {worker : Worker.State}
    (present : (state.pools id).workers[index]? = some worker) {candidate : Candidate}
    (waits : candidate ∈ worker.candidates key) : candidate ∈ pending key state (.held id) := by
  rw [pending, List.mem_sum_map]
  exact ⟨worker, List.mem_of_getElem? present, waits⟩

/-- A worker that holds a fresh job has it waiting. -/
theorem exists_pending_of_worker {id : PoolID} {index : ℕ} {worker : Worker.State}
    {job : FetchedJob} (present : (state.pools id).workers[index]? = some worker)
    (held : worker.holds? = some job) (fresh : job.rawJSON.isFresh key) :
    ∃ candidate ∈ pending key state (.held id), candidate.payload = job.rawJSON := by
  cases worker with
  | fetched other =>
      obtain rfl : other = job := Option.some.inj held
      refine ⟨⟨other.rawJSON, none⟩, mem_pending_of_worker present ?_, rfl⟩
      rw [Worker.State.candidates, RawJSON.candidates_of_fresh fresh]
      exact Multiset.mem_singleton_self _
  | gotUnique other value =>
      obtain rfl : other = job := Option.some.inj held
      refine ⟨⟨other.rawJSON, some value⟩, mem_pending_of_worker present ?_, rfl⟩
      rw [Worker.State.candidates, if_pos fresh]
      exact Multiset.mem_singleton_self _
  | _ => cases held

/-- While a job waits, what is found under the key hands the arguments of the last call to
its handler. -/
theorem Current.handed_args (current : Current key state memory) {candidate : Candidate}
    {place : WaitingPlace} (waits : candidate ∈ pending key state place) {job : FetchedJob}
    (unambiguous : candidate.payload.Unambiguous)
    (decoded : newJob candidate.payload job.dequeuedFrom job.inProgQueue = some job) :
    ∃ value, state.redis.unique key = some value ∧
      memory = some (Worker.updatedJob job value).args := by
  obtain ⟨present, -, agrees⟩ := current.waiting.good_of_mem waits
  obtain ⟨value, stored⟩ := Option.ne_none_iff_exists'.mp present
  refine ⟨value, stored, ?_⟩
  by_cases placeholder : value = .placeholder
  · rw [Worker.updatedJob, if_pos placeholder, ← agrees (placeholder ▸ stored)]
    exact RawJSON.args?_of_newJob unambiguous decoded
  · rcases current.stored value stored with same | ⟨last, rfl, fit, sent⟩
    · exact (placeholder same).elim
    · rw [Worker.updatedJob, if_neg placeholder, sent, newJob, last.decode_serialize fit]
      rfl

/-- A coordinated step as it can be checked on the store alone: no job fails or is
scheduled, and a call on a key that is set carries a key map and finds the job on its
queue. -/
def Direct (deployment : Deployment) (key : String) (state : State) (event : Event) : Prop :=
  Ordinary state event ∧ (∀ job ∈ deleter? state event, job.fails = 0) ∧
    match event with
    | .enqueuer (.enqueueUnique name id now args keyMap _) =>
        (Enqueuer.uniqueJob deployment.ns name id now args keyMap).uniqueKey = key →
          (Job.encodeArgs args).numbersFit ∧ (state.redis.unique key = none ∨ keyMap ≠ none ∧
            0 < (state.redis.list (.jobs name)).countP (RawJSON.isFresh key))
    | .pool _ (.requeue _ _) => False
    | .pool _ (.worker _ (.getUnique reply)) => reply = .ok
    | .pool _ (.worker _ (.delUnique reply)) => reply = .ok
    | _ => True

/-- The name, arguments, key map and written job of a unique call. -/
def Event.uniqueCall? (ns : String) : Event → Option (String × Args × Args × Job)
  | .enqueuer (.enqueueUnique name id now args keyMap _) =>
      some (name, args, keyMap, Enqueuer.uniqueJob ns name id now args keyMap)
  | _ => none

/-- The step is no requeuer's, and the commands of workers on unique keys are answered. -/
def Event.answered : Event → Bool
  | .pool _ (.requeue _ _) => false
  | .pool _ (.worker _ (.getUnique reply)) => reply == .ok
  | .pool _ (.worker _ (.delUnique reply)) => reply == .ok
  | _ => true

theorem direct_iff : Direct deployment key state event ↔
    Ordinary state event ∧ (∀ job ∈ deleter? state event, job.fails = 0) ∧ event.answered ∧
      ∀ call ∈ event.uniqueCall? deployment.ns, call.2.2.2.uniqueKey = key →
        (Job.encodeArgs call.2.1).numbersFit ∧ (state.redis.unique key = none ∨
          call.2.2.1 ≠ none ∧
            0 < (state.redis.list (.jobs call.1)).countP (RawJSON.isFresh key)) := by
  unfold Direct Event.answered Event.uniqueCall?
  split <;> simp

instance (deployment : Deployment) (key : String) (state : State) (event : Event) :
    Decidable (Direct deployment key state event) :=
  decidable_of_iff _ direct_iff.symm

theorem Direct.exclusive (direct : Direct deployment key state event) :
    Exclusive deployment state event :=
  ⟨direct.1, fun job deleter => .inl (direct.2.1 job deleter)⟩

theorem Direct.coordinated (direct : Direct deployment key state event)
    (reserved : Reserved key state) : Coordinated deployment key state event := by
  refine ⟨direct.exclusive, ?_⟩
  obtain ⟨-, -, rest⟩ := direct
  cases event with
  | enqueuer call =>
      cases call with
      | enqueueUnique name id now args keyMap runAt =>
          intro own
          obtain ⟨fit, free | ⟨mapped, queued⟩⟩ := rest own
          · refine ⟨fit, fun place candidate member => ?_⟩
            rw [reserved.pending_eq_zero free] at member
            exact (Multiset.notMem_zero candidate member).elim
          · refine ⟨fit, fun place candidate member => ⟨?_, fun default => (mapped default).elim⟩⟩
            -- The only waiting job is the one on the queue, where no key has been read.
            rw [← RawJSON.card_candidates] at queued
            change 0 < (pending key state (.queue name)).card at queued
            have here : place = .queue name := by
              by_contra elsewhere
              have together := reserved.card_add_card_le elsewhere
              have present := Multiset.card_pos_iff_exists_mem.mpr ⟨candidate, member⟩
              omega
            rw [here] at member
            exact (RawJSON.of_mem_candidates member).2.2
      | _ => trivial
  | pool id poolEvent =>
      cases poolEvent with
      | requeue set now => exact rest.elim
      | worker index workerEvent =>
          cases workerEvent with
          | getUnique reply | delUnique reply => exact rest
          | _ => trivial
      | _ => trivial
  | _ => trivial

/-- A run of direct steps is a coordinated one. -/
theorem coordinated_of_direct (nonempty : key ≠ "") {pair : State × Option Args}
    (reached : ((system deployment).monitored none (lastSent deployment.ns key)).Reachable
      (fun pair event => Direct deployment key pair.1 event) pair) :
    ((system deployment).monitored none (lastSent deployment.ns key)).Reachable
      (fun pair event => Coordinated deployment key pair.1 event) pair := by
  refine reached.widen fun pair event _ earlier direct _ => direct.coordinated ?_
  exact Reserved.reachable ((TransitionSystem.Reachable.of_monitored earlier).mono
    fun _ _ (direct : Direct deployment key _ _) => direct.exclusive) nonempty

/-- In every coordinated run, a worker that goes from a waiting job of the key to its
handler hands it the arguments of the last call on the key. -/
theorem handler_sees_last_call
    (reached : ((system deployment).monitored none (lastSent deployment.ns key)).Reachable
      (fun pair event => Coordinated deployment key pair.1 event) (state, memory))
    (coordinated : Coordinated deployment key state event)
    (stepped : step deployment state event = some next) {id : PoolID} {index : ℕ}
    {worker : Worker.State} {job handed : FetchedJob} {raw : RawJSON}
    (before : (state.pools id).workers[index]? = some worker) (held : worker.holds? = some job)
    (never : job.fails = 0) (own : Worker.uniqueKey deployment.ns job.toJob = key)
    (after : (next.pools id).workers[index]? = some (.running handed raw)) :
    memory = some handed.args := by
  have plain := (TransitionSystem.Reachable.of_monitored reached).mono
    fun _ _ (coordinated : Coordinated deployment key _ _) => coordinated.1.1
  have sound := Sound.reachable plain
  have member := List.mem_of_getElem? before
  have fresh : job.rawJSON.isFresh key := own ▸ sound.isFresh_of_fails member held never
  have decoded := (sound.genuine id worker member job held).1
  have current := Current.reachable
    (own ▸ Worker.uniqueKey_ne_empty deployment.ns job.toJob) reached
  rcases step_worker stepped after with same | idle | ⟨other, workerEvent, rfl, present, moved⟩
  · obtain rfl := Option.some.inj (before.symm.trans same)
    cases held
  · cases idle
  · obtain rfl := Option.some.inj (before.symm.trans present)
    generalize next.redis = redis at moved
    generalize started : Worker.State.running handed raw = worker' at moved
    cases moved with
    | @missed other reply absent =>
        obtain rfl : other = job := Option.some.inj held
        obtain ⟨candidate, waits, same⟩ := exists_pending_of_worker before held fresh
        have set := (current.waiting.good_of_mem waits).1
        exact (set (own ▸ absent coordinated.2)).elim
    | @deleted other value =>
        obtain rfl : other = job := Option.some.inj held
        obtain ⟨rfl, -⟩ := Worker.State.running.inj started
        have waits : (⟨other.rawJSON, some value⟩ : Candidate) ∈ pending key state (.held id) := by
          refine mem_pending_of_worker before ?_
          rw [Worker.State.candidates, if_pos fresh]
          exact Multiset.mem_singleton_self _
        obtain ⟨found, stored, sent⟩ := current.handed_args waits
          (sound.unambiguous_held (List.mem_of_getElem? before) rfl) decoded
        have reads := (current.waiting.good_of_mem waits).2.1 value rfl
        rw [sent, Option.some.inj (stored.symm.trans reads)]
    | unanswered | undeleted => cases coordinated.2
    | got => cases started
    | _ => cases held

/-- A unique call on the key `{"k": 1}`, or on the key of its arguments. -/
def callSend (id : String) (args : Args) (byKey : Bool) : Event :=
  .enqueuer (.enqueueUnique "send" id 0 args
    (if byKey then some [("k", .num (.int 1))] else none) none)

/-- The key of these calls. -/
def sendKey : String := redisKeyUniqueJob single.ns "send" (some [("k", .num (.int 1))])

/-- Some arguments. -/
def payload (value : ℤ) : Args := some [("a", .num (.int value))]

/-- The arguments of a waiting job are updated, and a worker reads the key. -/
def updatedTwice : List Event :=
  boot ["send"] "A" ++ [callSend "1" (payload 1) true, callSend "2" (payload 2) true] ++
    startUnique.take 2

theorem handler_sees_last_call_updated :
    ∃ state memory next handed raw,
      ((system single).monitored none (lastSent single.ns sendKey)).Reachable
        (fun pair event => Coordinated single sendKey pair.1 event) (state, memory) ∧
      step single state (.pool "A" (.worker 0 (.delUnique .ok))) = some next ∧
      (next.pools "A").workers[0]? = some (.running handed raw) ∧ handed.args = payload 2 ∧
      memory = some handed.args := by
  have run : ∃ pair, ((system single).monitored none (lastSent single.ns sendKey)).Reachable
        (fun pair event => Direct single sendKey pair.1 event) pair ∧
      Direct single sendKey pair.1 (.pool "A" (.worker 0 (.delUnique .ok))) ∧
      (∃ worker ∈ (pair.1.pools "A").workers[0]?, ∃ job ∈ worker.holds?, job.fails = 0 ∧
        Worker.uniqueKey single.ns job.toJob = sendKey) ∧
        ∃ handed ∈ (step single pair.1 (.pool "A" (.worker 0 (.delUnique .ok)))).bind
          fun next => runningJob? next "A" 0, handed.args = payload 2 :=
    TransitionSystem.Reachable.exists_of_run updatedTwice
      (TransitionSystem.initial_monitored initial_emptyState) (by decide +kernel)
  obtain ⟨⟨state, memory⟩, reached, allowed, ⟨worker, before, job, held, never, own⟩, handed,
    started, args⟩ := run
  obtain ⟨next, stepped, running⟩ := Option.bind_eq_some_iff.mp started
  obtain ⟨raw, after⟩ := running_of_runningJob? running
  have coordinated := coordinated_of_direct (redisKeyUniqueJob_ne_empty _ _ _) reached
  have reserved : Reserved sendKey state :=
    (Current.reachable (redisKeyUniqueJob_ne_empty _ _ _) coordinated).waiting.mono
      fun _ _ _ good => good.1
  exact ⟨state, memory, next, handed, raw, coordinated, stepped, after, args,
    handler_sees_last_call coordinated (allowed.coordinated reserved) stepped before held never own
      after⟩

/-- A call between the reading and the deletion of the key is lost, and so is a call without
a key map that finds a job with other arguments. -/
theorem update_lost :
    (∃ pair, ((system single).monitored none (lastSent single.ns sendKey)).Reachable
          (fun pair event => Ordinary pair.1 event ∧
            ∀ job ∈ deleter? pair.1 event, job.fails = 0) pair ∧
        (∃ handed ∈ runningJob? pair.1 "A" 0, handed.args = payload 1) ∧
          pair.2 = some (payload 2)) ∧
      ∃ pair, ((system single).monitored none (lastSent single.ns sendKey)).Reachable
          (fun pair event => Ordinary pair.1 event ∧
            ∀ job ∈ deleter? pair.1 event, job.fails = 0) pair ∧
        (∃ handed ∈ runningJob? pair.1 "A" 0, handed.args = payload 1) ∧
          pair.2 = some (some [("k", .num (.int 1))]) := by
  constructor
  · exact TransitionSystem.Reachable.exists_of_run
      (boot ["send"] "A" ++ [callSend "1" (payload 1) true] ++ startUnique.take 2 ++
        [callSend "2" (payload 2) true] ++ startUnique.drop 2)
      (TransitionSystem.initial_monitored initial_emptyState) (by decide +kernel)
  · exact TransitionSystem.Reachable.exists_of_run
      (boot ["send"] "A" ++ [callSend "1" (payload 1) true,
        callSend "2" (some [("k", .num (.int 1))]) false] ++ startUnique)
      (TransitionSystem.initial_monitored initial_emptyState) (by decide +kernel)

end System
