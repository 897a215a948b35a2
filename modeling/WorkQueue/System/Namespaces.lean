import WorkQueue.Accounting.Names
import WorkQueue.Client.Heartbeats
import WorkQueue.System.Database
import WorkQueue.System.Presence

/-! # Namespaces in one database

Deployments whose names keep their keys apart send only requests whose keys are kept apart by
their texts (`keys_proper`). So any number of them may share one database: whatever the
interleaving, each sees its own store and nothing of the others (`shared_database`).
-/

open Redis

/-- The job name of an enqueuer's command. -/
def Enqueuer.Call.jobName : Enqueuer.Call → String
  | .enqueue jobName _ _ _ | .enqueueAt jobName _ _ _ _ | .enqueueUnique jobName _ _ _ _ _
  | .addToKnownJobs jobName => jobName

namespace System

variable {deployment : Deployment} {state next : State} {event : Event}

/-- The names of an event keep its keys apart: pool identifiers have no colons, the registered
names no commas, no name ends in a reserved word, and a unique key that is deleted is one of the
namespace. -/
def Tame (deployment : Deployment) : Event → Prop
  | .pool id _ => ':' ∉ id.toList ∧
      ∀ name ∈ (deployment.pool id).names, Key.Plain name ∧ ',' ∉ name.toList
  | .enqueuer call => Key.Plain call.jobName
  | .client (.deleteUniqueKey key) =>
      (redisNamespacePrefix deployment.ns ++ "unique:").toList <+: key.toList
  | .client (.retryDeadJob jobNames _ _ _) => ∀ name ∈ jobNames, Key.Plain name
  | .client (.retryAllDeadJobs jobNames _) => ∀ name ∈ jobNames, Key.Plain name
  | .client _ => True
  | .pause jobName _ => Key.Plain jobName
  | .push jobName _ => Key.Plain jobName

instance (deployment : Deployment) : DecidablePred (Tame deployment)
  | .pool id _ => inferInstanceAs (Decidable (':' ∉ id.toList ∧
      ∀ name ∈ (deployment.pool id).names, Key.Plain name ∧ ',' ∉ name.toList))
  | .enqueuer call => inferInstanceAs (Decidable (Key.Plain call.jobName))
  | .client (.deleteUniqueKey key) => inferInstanceAs (Decidable
      ((redisNamespacePrefix deployment.ns ++ "unique:").toList <+: key.toList))
  | .client (.retryDeadJob jobNames _ _ _) =>
      inferInstanceAs (Decidable (∀ name ∈ jobNames, Key.Plain name))
  | .client (.retryAllDeadJobs jobNames _) =>
      inferInstanceAs (Decidable (∀ name ∈ jobNames, Key.Plain name))
  | .client (.deleteZsetJob _ _ _) => inferInstanceAs (Decidable True)
  | .client .deleteAllDeadJobs => inferInstanceAs (Decidable True)
  | .pause jobName _ => inferInstanceAs (Decidable (Key.Plain jobName))
  | .push jobName _ => inferInstanceAs (Decidable (Key.Plain jobName))

/-- Only the system writes payloads, and the names keep the keys apart. -/
def PlainlyNamed (deployment : Deployment) (state : State) (event : Event) : Prop :=
  OwnPayloads state event ∧ Tame deployment event

instance (deployment : Deployment) (state : State) (event : Event) :
    Decidable (PlainlyNamed deployment state event) := inferInstanceAs (Decidable (_ ∧ _))

/-- Payloads carry plain names: those of their lists. -/
def plainContract (deployment : Deployment) :
    PayloadContract deployment (PlainlyNamed deployment) where
  payload name raw := Named deployment.ns name raw ∧ Key.Plain name
  job name job := (job.name = name ∧ KeyOf deployment.ns name job.uniqueKey) ∧ Key.Plain name
  value := (namesContract deployment).value
  enqueued state name id now args allowed :=
    ⟨(namesContract deployment).enqueued state name id now args allowed.1, allowed.2⟩
  scheduled state name id now args epochSeconds allowed :=
    ⟨(namesContract deployment).scheduled state name id now args epochSeconds allowed.1,
      allowed.2⟩
  enqueuedUnique state name id now args keyMap runAt allowed := by
    have named :=
      (namesContract deployment).enqueuedUnique state name id now args keyMap runAt allowed.1
    exact ⟨⟨named.1, allowed.2⟩, named.2⟩
  pushed _ _ _ allowed := Bool.noConfusion allowed.1.1
  decoded name raw source target fetched held read :=
    ⟨(namesContract deployment).decoded name raw source target fetched held.1 read, held.2⟩
  updated name original raw source target fetched held valued updating read :=
    ⟨(namesContract deployment).updated name original raw source target fetched held.1 valued
      updating read, held.2⟩
  failed state id index name fetched raw finish reply key score written running allowed held
      fate := by
    have kept := allowed.1.2 _ rfl fetched (runningJob?_of_running running)
    obtain ⟨sameName, -, -, sameKey⟩ := Worker.processJob_identity kept
    obtain ⟨rfl, -⟩ := Worker.processJob_written fate
    obtain ⟨⟨rfl, keyed⟩, plain⟩ := held
    refine ⟨_, named_serialize _ ?_, ?_⟩
    · rw [sameName, sameKey]
      exact keyed
    · rw [sameName]
      exact plain
  requeued state id key now name raw lua other written allowed member held read queued encoded :=
    ⟨(namesContract deployment).requeued state id key now name raw lua other written allowed.1
      member held.1 read queued encoded, held.1.queue_eq read queued ▸ held.2⟩
  buried _ _ _ _ name _ _ _ _ _ held read _ _ encoded :=
    ⟨name, held.1.buried read encoded, held.2⟩
  revived state call name raw lua other now written allowed held read queued encoded :=
    ⟨(namesContract deployment).revived state call name raw lua other now written allowed.1
      held.1 read queued encoded, held.1.queue_eq read queued ▸ held.2⟩
  kept _ _ name _ _ _ _ _ held read encoded := ⟨name, held.1.buried read encoded, held.2⟩

section Pools

/-- Identifiers without colons and plain names among the dead pools that a reaper has found. -/
def TamePools (found : List (PoolID × List String)) : Prop :=
  ∀ entry ∈ found, ':' ∉ entry.1.toList ∧ ∀ name ∈ entry.2, Key.Plain name

/-- Identifiers without colons and plain names in the state of a reaper. -/
def TameReaper : Reaper.State → Prop
  | .idle => True
  | .scanning todo found => (∀ id ∈ todo, ':' ∉ id.toList) ∧ TamePools found
  | .reading id todo found =>
      (':' ∉ id.toList ∧ ∀ id ∈ todo, ':' ∉ id.toList) ∧ TamePools found
  | .requeueing id names todo | .deleting id names todo | .removing id names todo
  | .cleaning id names todo => TamePools ((id, names) :: todo)

/-- The pools and the heartbeats carry such identifiers and names, and so do the reapers. -/
structure TamePresence (state : State) : Prop where
  pools : ∀ id ∈ state.redis.workerPools, ':' ∉ id.toList
  heartbeats : ∀ id heartbeat, state.redis.heartbeat id = some heartbeat →
    ∀ name ∈ splitNames heartbeat.jobNames, Key.Plain name
  reapers : ∀ id, TameReaper (state.pools id).reaper

/-- The names in a heartbeat are plain if the registered ones are and have no commas. -/
theorem plain_of_mem_heartbeat {config : PoolConfig}
    (tame : ∀ name ∈ config.names, Key.Plain name ∧ ',' ∉ name.toList) {startedAt now : Int64}
    {name : String} (member : name ∈ splitNames (config.heartbeat startedAt now).jobNames) :
    Key.Plain name := by
  by_cases empty : config.names = []
  · have blank : splitNames (config.heartbeat startedAt now).jobNames = [""] := by
      rw [PoolConfig.heartbeat, empty]
      rfl
    rw [blank, List.mem_singleton] at member
    subst member
    decide
  · have separable : Separable (sortNames config.names) :=
      separable_sortNames.mpr ⟨empty, fun name listed => (tame name listed).2⟩
    have names : splitNames (config.heartbeat startedAt now).jobNames = sortNames config.names :=
      splitNames_joinNames separable
    rw [names, mem_sortNames] at member
    exact (tame name member).1

theorem TamePools.snoc {found : List (PoolID × List String)} (tame : TamePools found)
    {id : PoolID} {names : List String} (plain : ':' ∉ id.toList)
    (listed : ∀ name ∈ names, Key.Plain name) : TamePools (found ++ [(id, names)]) := by
  intro entry member
  rcases List.mem_append.mp member with before | last
  · exact tame entry before
  · obtain rfl := List.mem_singleton.mp last
    exact ⟨plain, listed⟩

theorem TamePools.tail {entry : PoolID × List String} {found : List (PoolID × List String)}
    (tame : TamePools (entry :: found)) : TamePools found :=
  fun other member => tame other (List.mem_cons_of_mem _ member)

theorem tameReaper_proceed {curJobTypes : List String}
    (listed : ∀ name ∈ curJobTypes, Key.Plain name) {todo : List (PoolID × List String)}
    (tame : TamePools todo) : TameReaper (Reaper.proceed curJobTypes todo) := by
  cases todo with
  | nil => trivial
  | cons entry todo =>
      obtain ⟨id, names⟩ := entry
      rw [Reaper.proceed]
      split
      · exact tame
      · intro other member
        rcases List.mem_cons.mp member with rfl | later
        · exact ⟨(tame _ List.mem_cons_self).1, listed⟩
        · exact tame other (List.mem_cons_of_mem _ later)

theorem tameReaper_step {curJobTypes : List String} {redis redis' : Store}
    {before after : Reaper.State} {event : Reaper.Event}
    (moved : Reaper.Case curJobTypes redis before event redis' after)
    (listed : ∀ name ∈ curJobTypes, Key.Plain name)
    (pools : ∀ id ∈ redis.workerPools, ':' ∉ id.toList)
    (heartbeats : ∀ id heartbeat, redis.heartbeat id = some heartbeat →
      ∀ name ∈ splitNames heartbeat.jobNames, Key.Plain name)
    (tame : TameReaper before) : TameReaper after := by
  cases moved with
  | listed complete =>
      refine ⟨fun id member => pools id ?_, fun _ impossible => (List.not_mem_nil impossible).elim⟩
      rw [← complete]
      exact List.mem_toFinset.mpr member
  | expired =>
      refine ⟨fun id member => tame.1 id (List.mem_cons_of_mem _ member), ?_⟩
      exact tame.2.snoc (tame.1 _ List.mem_cons_self) fun _ impossible =>
        (List.not_mem_nil impossible).elim
  | alive => exact ⟨fun id member => tame.1 id (List.mem_cons_of_mem _ member), tame.2⟩
  | old =>
      refine ⟨⟨tame.1 _ List.mem_cons_self, fun id member => ?_⟩, tame.2⟩
      exact tame.1 id (List.mem_cons_of_mem _ member)
  | gone => exact ⟨tame.1.2, tame.2⟩
  | dead beat => exact ⟨tame.1.2, tame.2.snoc tame.1.1 (heartbeats _ _ beat)⟩
  | begun same =>
      apply tameReaper_proceed listed
      exact fun entry member => tame.2 entry (same.mem_iff.mp member)
  | requeued _ _ outcome | deleted outcome | removed outcome =>
      rcases outcome with rfl | rfl
      · exact tame
      · trivial
  | emptied => exact tame
  | cleaned outcome =>
      rcases outcome with rfl | rfl
      · exact tameReaper_proceed listed tame.tail
      · trivial
  | aborted => trivial

/-- A step of a pool leaves its reaper alone, is a step of the reaper, or starts with an idle
one. -/
theorem reaper_of_case {ns : String} {config : PoolConfig} {id : PoolID} {redis redis' : Store}
    {pool pool' : Pool} {event : Pool.Event}
    (moved : Pool.Case ns config id redis pool event redis' pool') :
    pool'.reaper = pool.reaper ∨ pool'.reaper = .idle ∨
      ∃ reaperEvent, Reaper.Case config.names redis pool.reaper reaperEvent redis'
        pool'.reaper := by
  cases moved with
  | launched => exact .inr (.inl rfl)
  | reaped _ reaped => exact .inr (.inr ⟨_, reaped⟩)
  | returned =>
      left
      split <;> rfl
  | _ => exact .inl rfl

theorem TamePresence.pools_step (tame : TamePresence state) (allowed : Tame deployment event)
    (stepped : System.step deployment state event = some next) :
    ∀ id ∈ next.redis.workerPools, ':' ∉ id.toList := by
  cases step_presence stepped with
  | same same => rw [same.workerPools]; exact tame.pools
  | joined here _ joined =>
      subst here
      rw [joined]
      intro id member
      rcases Finset.mem_insert.mp member with rfl | before
      · exact allowed.1
      · exact tame.pools id before
  | beat _ _ _ beat => rw [beat]; exact tame.pools
  | left _ _ left | reapRemoved _ _ left =>
      rw [left]
      exact fun id member => tame.pools id (Finset.mem_of_mem_erase member)
  | forgotten _ _ forgotten | reapDeleted _ _ forgotten => rw [forgotten]; exact tame.pools

theorem TamePresence.heartbeats_step (tame : TamePresence state)
    (allowed : Tame deployment event)
    (stepped : System.step deployment state event = some next) (id : PoolID)
    (heartbeat : Heartbeat) (present : next.redis.heartbeat id = some heartbeat) :
    ∀ name ∈ splitNames heartbeat.jobNames, Key.Plain name := by
  cases step_presence stepped with
  | same same =>
      rw [same.heartbeat] at present
      exact tame.heartbeats id heartbeat present
  | joined _ _ after | left _ _ after | reapRemoved _ _ after =>
      rw [after] at present
      exact tame.heartbeats id heartbeat present
  | @beat own now startedAt here _ _ beat =>
      subst here
      rw [beat] at present
      by_cases same : id = own
      · subst same
        simp only [Pool.hmsetHeartbeat, Function.update_self] at present
        cases present
        exact fun name => plain_of_mem_heartbeat allowed.2
      · simp only [Pool.hmsetHeartbeat, Function.update_of_ne same] at present
        exact tame.heartbeats id heartbeat present
  | @forgotten own _ _ forgotten | @reapDeleted _ own _ _ _ _ _ forgotten =>
      rw [forgotten] at present
      by_cases same : id = own
      · subst same
        simp only [Reaper.delHeartbeat, Function.update_self, reduceCtorEq] at present
      · simp only [Reaper.delHeartbeat, Function.update_of_ne same] at present
        exact tame.heartbeats id heartbeat present

theorem TamePresence.reapers_step (tame : TamePresence state) (allowed : Tame deployment event)
    (stepped : System.step deployment state event = some next) (id : PoolID) :
    TameReaper (next.pools id).reaper := by
  cases event with
  | pool acting poolEvent =>
      obtain ⟨pool, pools, moved⟩ := step_pool stepped
      rw [pools]
      by_cases same : id = acting
      · subst same
        rw [Function.update_self]
        rcases reaper_of_case moved with kept | idle | ⟨reaperEvent, reaped⟩
        · rw [kept]
          exact tame.reapers id
        · rw [idle]
          trivial
        · exact tameReaper_step reaped (fun name member => (allowed.2 name member).1) tame.pools
            tame.heartbeats (tame.reapers id)
      · rw [Function.update_of_ne same]
        exact tame.reapers id
  | _ =>
      rw [step_pools stepped (by simp)]
      exact tame.reapers id

theorem tamePresence_reachable
    (reached : (system deployment).Reachable (PlainlyNamed deployment) state) :
    TamePresence state := by
  refine reached.invariant TamePresence ?_ ?_
  · intro start initial
    refine ⟨?_, ?_, ?_⟩
    · intro id member
      rw [initial.workerPools] at member
      exact (Finset.notMem_empty id member).elim
    · intro id heartbeat present
      rw [initial.heartbeat] at present
      cases present
    · intro id
      rw [initial.pools]
      trivial
  · intro source event target _ tame allowed stepped
    exact ⟨tame.pools_step allowed.2 stepped, tame.heartbeats_step allowed.2 stepped,
      tame.reapers_step allowed.2 stepped⟩

end Pools

section Keys

variable {ns : String} {names : List String} {pool : PoolID} {key : Key}

theorem proper_requeueKeys (plain : ':' ∉ pool.toList) (listed : ∀ name ∈ names, Key.Plain name)
    (member : key ∈ names.flatMap (Lua.requeueKeys pool)) : key.Proper ns := by
  simp only [List.mem_flatMap, Lua.requeueKeys, List.mem_cons, List.not_mem_nil, or_false]
    at member
  obtain ⟨name, registered, rfl | rfl | rfl | rfl⟩ := member
  · exact ⟨plain, listed name registered⟩
  all_goals exact listed name registered

theorem proper_lockKeys (listed : ∀ name ∈ names, Key.Plain name)
    (member : key ∈ names.flatMap Lua.lockKeys) : key.Proper ns := by
  simp only [List.mem_flatMap, Lua.lockKeys, List.mem_cons, List.not_mem_nil, or_false] at member
  obtain ⟨name, registered, rfl | rfl⟩ := member
  all_goals exact listed name registered

theorem proper_zremLpushKeys {zset : ZSetKey} (listed : ∀ name ∈ names, Key.Plain name)
    (member : key ∈ Lua.zremLpushKeys zset names) : key.Proper ns := by
  simp only [Lua.zremLpushKeys, List.mem_cons, List.mem_map] at member
  rcases member with rfl | rfl | ⟨name, registered, rfl⟩
  · trivial
  · trivial
  · exact listed name registered

theorem proper_deadKeys (listed : ∀ name ∈ names, Key.Plain name)
    (member : key ∈ Lua.deadKeys names) : key.Proper ns := by
  simp only [Lua.deadKeys, List.mem_cons, List.mem_map] at member
  rcases member with rfl | ⟨name, registered, rfl⟩
  · trivial
  · exact listed name registered

theorem proper_redisKeyUniqueJob (ns name : String) (args : Args) :
    (Key.unique (redisKeyUniqueJob ns name args)).Proper ns := by
  rw [Key.Proper, toList_redisKeyUniqueJob]
  exact List.prefix_append _ _

theorem eq_of_sent {reply : Reply} {request request' : Request}
    (sent : reply.sent request = some request') : request' = request := by
  unfold Reply.sent at sent
  split at sent
  · cases sent
  · exact (Option.some.inj sent).symm

/-- The keys of a worker's request. -/
theorem proper_worker {id : PoolID} {worker worker' : Worker.State} {event : Worker.Event}
    {redis redis' : Store} {request : Request}
    (tame : ':' ∉ id.toList ∧
      ∀ name ∈ (deployment.pool id).names, Key.Plain name ∧ ',' ∉ name.toList)
    (held : (plainContract deployment).AtWorker id worker)
    (kept : ∀ job raw finish reply, worker = .running job raw → event = .finish finish reply →
      Worker.Finish.KeepsIdentity finish job.toJob)
    (stepped : Worker.step deployment.ns (deployment.pool id) id redis worker event =
      some (redis', worker'))
    (sent : Worker.request deployment.ns (deployment.pool id) id worker event = some request)
    (member : key ∈ request.keys) : key.Proper deployment.ns := by
  have uniqueKey : ∀ job, (plainContract deployment).Held id job →
      (Key.unique (Worker.uniqueKey deployment.ns job.toJob)).Proper deployment.ns := by
    rintro job ⟨name, _, _, ⟨rfl, keyed⟩, _⟩
    obtain ⟨args, same⟩ := keyed.uniqueKey
    rw [same]
    exact proper_redisKeyUniqueJob _ _ _
  unfold Worker.request at sent
  split at sent
  · next order reply =>
      obtain rfl := eq_of_sent sent
      obtain ⟨sampled, stepped⟩ := Option.ite_none_right_eq_some.mp stepped
      apply proper_fetchKeys tame.1 _ member
      exact fun name listed => (tame.2 name (sampled.mem_iff.mp listed)).1
  · next job reply =>
      obtain rfl := eq_of_sent sent
      obtain rfl := List.mem_singleton.mp member
      exact uniqueKey job held
  · next job raw reply =>
      obtain rfl := eq_of_sent sent
      obtain rfl := List.mem_singleton.mp member
      exact uniqueKey job held.1
  · next job raw finish reply =>
      have same : request = .removeJobFromInProgress id job.inProgQueue
          (Worker.processJob (deployment.pool id) job.toJob finish).1.name
          (Worker.processJob (deployment.pool id) job.toJob finish).2 raw := eq_of_sent sent
      subst same
      obtain ⟨name, _, inProgress, ⟨rfl, _⟩, plain⟩ := held
      obtain ⟨sameName, _⟩ := @Worker.processJob_identity (deployment.pool id) _ _
        (kept job raw finish reply rfl rfl)
      simp only [Request.keys, List.cons_append, List.nil_append, List.mem_cons,
        Option.mem_toList, Option.map_eq_some_iff] at member
      rcases member with rfl | rfl | rfl | ⟨added, _, rfl⟩
      · rw [inProgress]
        exact ⟨tame.1, plain⟩
      · rw [sameName]
        exact plain
      · rw [sameName]
        exact plain
      · trivial
  · cases sent

/-- The keys of a reaper's request. -/
theorem proper_reaper {reaper : Reaper.State} {event : Reaper.Event} {request : Request}
    (tame : TameReaper reaper) (sent : Reaper.request reaper event = some request)
    (member : key ∈ request.keys) : key.Proper ns := by
  unfold Reaper.request at sent
  split at sent
  case h_4 | h_7 =>
    obtain rfl := eq_of_sent sent
    have first := tame _ List.mem_cons_self
    first
      | exact proper_requeueKeys first.1 first.2 member
      | exact proper_lockKeys first.2 member
  case h_8 => cases sent
  all_goals
    obtain rfl := eq_of_sent sent
    obtain rfl := List.mem_singleton.mp member
    trivial

/-- The keys of a pool's request. -/
theorem proper_pool {id : PoolID} {event : Pool.Event} {redis' : Store} {pool' : Pool}
    {request : Request}
    (tame : ':' ∉ id.toList ∧
      ∀ name ∈ (deployment.pool id).names, Key.Plain name ∧ ',' ∉ name.toList)
    (own : OwnPayloads state (.pool id event))
    (held : (plainContract deployment).Everywhere state) (presence : TamePresence state)
    (stepped : Pool.step deployment.ns (deployment.pool id) id state.redis (state.pools id) event =
      some (redis', pool'))
    (sent : Pool.request deployment.ns (deployment.pool id) id (state.pools id) event =
      some request)
    (member : key ∈ request.keys) : key.Proper deployment.ns := by
  have listed : ∀ name ∈ (deployment.pool id).names, Key.Plain name := fun name registered =>
    (tame.2 name registered).1
  -- A request that is sent only if the event says so.
  have simple : ∀ {executed : Bool} {sent : Request},
      (∀ key ∈ sent.keys, key.Proper deployment.ns) →
      (if executed then some sent else none) = some request → key.Proper deployment.ns := by
    intro executed sent proper same
    split at same
    · obtain rfl := Option.some.inj same
      exact proper key member
    · cases same
  cases event with
  | writeConcurrency name executed =>
      obtain ⟨jobType, registered, sent⟩ := Option.bind_eq_some_iff.mp sent
      have same : jobType.name = name := by simpa using List.find?_some registered
      have plain : Key.Plain name :=
        listed name (same ▸ List.mem_map_of_mem (List.mem_of_find?_eq_some registered))
      refine simple (fun key member => ?_) sent
      obtain rfl := List.mem_singleton.mp member
      exact plain
  | writeKnownJobs =>
      obtain rfl := Option.some.inj sent
      obtain rfl := List.mem_singleton.mp member
      trivial
  | worker index event =>
      obtain ⟨worker, present, sent⟩ := Option.bind_eq_some_iff.mp sent
      simp only [Pool.step, present] at stepped
      obtain ⟨-, stepped⟩ := Option.ite_none_right_eq_some.mp stepped
      obtain ⟨⟨after, worker'⟩, moved, _⟩ := Option.map_eq_some_iff.mp stepped
      refine proper_worker tame (held.workers id worker (List.mem_of_getElem? present)) ?_ moved
        sent member
      rintro job raw finish reply rfl rfl
      exact own.2 _ rfl job (runningJob?_of_running present)
  | beatAdd now executed | removeFromPools executed | removeHeartbeat executed =>
      refine simple (fun key member => ?_) sent
      obtain rfl := List.mem_singleton.mp member
      trivial
  | beatHash now executed =>
      simp only [Pool.request] at sent
      split at sent
      · refine simple (fun key member => ?_) sent
        obtain rfl := List.mem_singleton.mp member
        trivial
      · cases sent
  | requeue key now =>
      obtain rfl := Option.some.inj sent
      exact proper_zremLpushKeys listed member
  | reaper event => exact proper_reaper (presence.reapers id) sent member
  | requeueInProgressJobs order reply =>
      obtain rfl := eq_of_sent sent
      obtain ⟨ready, stepped⟩ := Option.ite_none_right_eq_some.mp stepped
      exact proper_requeueKeys tame.1
        (fun name ordered => listed name (ready.2.mem_iff.mp ordered)) member
  | cleanStaleLockInfo executed => exact simple (fun key => proper_lockKeys listed) sent
  | start | launch | stop | workersStopped | advance | crash => cases sent

theorem proper_enqueuer {call : Enqueuer.Call} (plain : Key.Plain call.jobName)
    (member : key ∈ (Enqueuer.request ns call).keys) : key.Proper ns := by
  rcases call with _ | _ | ⟨_, _, _, _, _, _ | _⟩ | _
  · obtain rfl := List.mem_singleton.mp member
    exact plain
  · obtain rfl := List.mem_singleton.mp member
    trivial
  · simp only [Enqueuer.request, Request.keys, List.mem_cons, List.not_mem_nil, or_false] at member
    rcases member with rfl | rfl
    · exact plain
    · exact proper_redisKeyUniqueJob _ _ _
  · simp only [Enqueuer.request, Request.keys, List.mem_cons, List.not_mem_nil, or_false] at member
    rcases member with rfl | rfl
    · trivial
    · exact proper_redisKeyUniqueJob _ _ _
  · obtain rfl := List.mem_singleton.mp member
    trivial

theorem proper_client {call : Client.Call} (tame : Tame deployment (.client call))
    (member : key ∈ (Client.request call).keys) : key.Proper deployment.ns := by
  cases call with
  | retryDeadJob | retryAllDeadJobs => exact proper_deadKeys tame member
  | deleteUniqueKey uniqueKey =>
      obtain rfl := List.mem_singleton.mp member
      exact tame
  | deleteZsetJob | deleteAllDeadJobs =>
      obtain rfl := List.mem_singleton.mp member
      trivial

/-- The texts of a request that is sent in a run with such names keep its keys apart. -/
theorem keys_proper (reached : (system deployment).Reachable (PlainlyNamed deployment) state)
    (allowed : PlainlyNamed deployment state event)
    (stepped : step deployment state event = some next)
    {request : Request} (sent : System.request deployment state event = some request)
    (member : key ∈ request.keys) : key.Proper deployment.ns := by
  cases event with
  | pool id event =>
      obtain ⟨⟨redis, pool⟩, moved, rfl⟩ := Option.map_eq_some_iff.mp stepped
      exact proper_pool allowed.2 allowed.1 ((plainContract deployment).reachable reached)
        (tamePresence_reachable reached) moved sent member
  | enqueuer call =>
      obtain rfl := Option.some.inj sent
      exact proper_enqueuer allowed.2 member
  | client call =>
      obtain rfl := Option.some.inj sent
      exact proper_client allowed.2 member
  | pause jobName paused | push jobName raw =>
      obtain rfl := Option.some.inj sent
      obtain rfl := List.mem_singleton.mp member
      exact allowed.2

end Keys

section Sharing

variable {Index : Type} [DecidableEq Index] {deployments : Index → Deployment}

/-- The steps of all deployments with such names. -/
def Shared (deployments : Index → Deployment) :
    (Index → State) × Database → Index × Event → Prop :=
  TransitionSystem.ownScope fun index => PlainlyNamed (deployments index)

/-- Any number of deployments may share one database. In every interleaving the database
represents the stores of all of them, and the answer to every request is the one that the model
of the sender's own store gives. -/
theorem shared_database
    (separate : ∀ index other, index ≠ other →
      SeparateNamespaces (deployments index).ns (deployments other).ns)
    {states : Index → State} {database : Database}
    (reachable : (shared deployments).Reachable (Shared deployments) (states, database))
    (index : Index) :
    Represents (deployments index).ns database (states index).redis ∧
      ∀ event next sent, PlainlyNamed (deployments index) (states index) event →
        step (deployments index) (states index) event = some next →
        request (deployments index) (states index) event = some sent →
        ((sent.script (Key.text (deployments index).ns)).run database).2 =
          (sent.perform (states index).redis).2.map
            (Answer.map (Key.text (deployments index).ns)) := by
  have represents : Represents (deployments index).ns database (states index).redis := by
    refine represents_of_plainKeys separate (reachable.widen ?_) index
    intro pair event next reached allowed stepped sent requested key member
    obtain ⟨_, moved, -⟩ := Option.map_eq_some_iff.mp stepped
    exact keys_proper (reached.part event.1) allowed moved requested member
  refine ⟨represents, fun event next sent allowed stepped requested => ?_⟩
  have reached := TransitionSystem.Reachable.part reachable index
  exact (represents.perform fun key => keys_proper reached allowed stepped requested).1

/-- Two deployments with the same job name. -/
def neighbours : Bool → Deployment
  | true => { single with ns := "billing" }
  | false => { single with ns := "mail" }

instance (pair : (Bool → State) × Database) (event : Bool × Event) :
    Decidable (Shared neighbours pair event) :=
  inferInstanceAs (Decidable (TransitionSystem.ownScope _ _ _))

/-- Both deployments enqueue a job of the same name, and a worker of the first fetches one. -/
def besideEachOther : List (Bool × Event) :=
  [(true, .enqueuer (.enqueue "send" "1" 0 none)),
    (false, .enqueuer (.enqueue "send" "2" 0 none))] ++
    (boot ["send"] "A").map (Prod.mk true) ++ [(true, .pool "A" (.worker 0 (.fetch ["send"] .ok)))]

/-- The worker takes the job of its own deployment from the database that both share. -/
theorem shared_database_neighbours : ∃ pair : (Bool → State) × Database,
    (shared neighbours).Reachable (Shared neighbours) pair ∧
      (((pair.1 true).redis.list (.jobs "send")).length = 0 ∧
        ((pair.1 true).redis.list (.inProgress "A" "send")).length = 1 ∧
        ((pair.1 false).redis.list (.jobs "send")).length = 1) ∧
      Represents "billing" pair.2 (pair.1 true).redis ∧
      Represents "mail" pair.2 (pair.1 false).redis := by
  have start : (shared neighbours).initial (fun _ => emptyState, fun _ => none) := fun index =>
    ⟨initial_emptyState, represents_emptyState _⟩
  obtain ⟨pair, reachable, holds⟩ := TransitionSystem.Reachable.exists_of_run besideEachOther start
    (show ((shared neighbours).run (Shared neighbours) _ besideEachOther).any
      (fun pair => decide (((pair.1 true).redis.list (.jobs "send")).length = 0 ∧
        ((pair.1 true).redis.list (.inProgress "A" "send")).length = 1 ∧
        ((pair.1 false).redis.list (.jobs "send")).length = 1)) = true by decide +kernel)
  have separate : ∀ index other, index ≠ other →
      SeparateNamespaces (neighbours index).ns (neighbours other).ns := by
    intro index other different
    cases index <;> cases other
    · exact (different rfl).elim
    · exact ⟨by decide, ⟨by decide, by decide⟩, by decide, by decide⟩
    · exact ⟨by decide, ⟨by decide, by decide⟩, by decide, by decide⟩
    · exact (different rfl).elim
  exact ⟨pair, reachable, holds, (shared_database separate reachable true).1,
    (shared_database separate reachable false).1⟩

end Sharing

end System
