import WorkQueue.Foundation.Sharing
import WorkQueue.System.Requests

/-! # The database of the server

The server has one database of texts for all keys and all namespaces. A database represents a
store if the texts of the namespace hold what the store holds, and a request whose keys are kept
apart by their texts then does to the database what it does to the store, with the same answer
(`Represents.perform`).

So the store of a deployment, whose keys never coincide, stands for the texts of its namespace as
long as its steps send only such requests (`System.represents_of_plainKeys`).
-/

open Redis

/-- The keys that a store holds. Observations and the time of the last periodic enqueueing are
kept elsewhere. -/
def Key.Stored : Key → Prop
  | .observation _ | .lastPeriodicEnqueue => False
  | _ => True

/-- The database of the server. -/
abbrev Database := String → Slot

/-- The texts of the namespace hold what the store holds. -/
def Represents (ns : String) (database : Database) (store : Store) : Prop :=
  ∀ key : Key, key.Proper ns → key.Stored → database (key.text ns) = store.slots key

/-- Every store is what some database holds. -/
theorem exists_represents (ns : String) (store : Store) :
    ∃ database, Represents ns database store := by
  classical
  refine ⟨fun text => if named : ∃ key : Key, key.Proper ns ∧ key.text ns = text
    then store.slots named.choose else none, ?_⟩
  intro key proper _
  have named : ∃ other : Key, other.Proper ns ∧ other.text ns = key.text ns := ⟨key, proper, rfl⟩
  simp only [dif_pos named]
  rw [Key.text_injective named.choose_spec.1 proper named.choose_spec.2]

/-- The database after a request, if one is executed. -/
def Database.after (ns : String) (database : Database) (request : Option Request) : Database :=
  request.elim database fun request => ((request.script (Key.text ns)).run database).1

section Requests

variable {ns : String} {request : Request}

theorem queuesApart_text (ns : String) : Request.QueuesApart (Key.text ns) where
  jobs name other same := by
    have tidy : ∀ name, (Key.list (.jobs name)).Tidy ns := fun _ => trivial
    rcases (Key.text_eq_iff (tidy name) (tidy other)).mp same with
      same | ⟨_, _, impossible⟩ | ⟨_, _, impossible⟩
    · cases same
      rfl
    · cases impossible
    · cases impossible
  zset name key same := by
    have tidy : (Key.zset key).Tidy ns := trivial
    have tidy' : (Key.list (.jobs name)).Tidy ns := trivial
    rcases (Key.text_eq_iff tidy' tidy).mp same with
      impossible | ⟨_, _, impossible⟩ | ⟨_, impossible, _⟩
    · cases impossible
    · cases impossible
    · cases impossible

/-- Requests concern only keys that a store holds. -/
theorem stored_of_mem_keys {key : Key} (member : key ∈ request.keys) : key.Stored := by
  cases request with
  | fetchJob | reenqueueJob | reapStaleLocks =>
      simp only [Request.keys, List.mem_flatMap, Lua.fetchKeys, Lua.requeueKeys, Lua.lockKeys,
        List.mem_cons, List.not_mem_nil, or_false] at member
      obtain ⟨name, _, listed⟩ := member
      rcases listed with rfl | rfl | rfl | rfl | rfl | rfl <;> trivial
  | zremLpush =>
      rcases Request.queue_or_zset_zremLpushKeys member with ⟨_, rfl⟩ | ⟨_, rfl⟩ <;> trivial
  | requeueSingleDead | requeueAllDead =>
      rcases Request.queue_or_zset_deadKeys member with ⟨_, rfl⟩ | ⟨_, rfl⟩ <;> trivial
  | removeJobFromInProgress pool inProgQueue jobName fate raw =>
      simp only [Request.keys, List.cons_append, List.nil_append, List.mem_cons,
        Option.mem_toList, Option.map_eq_some_iff] at member
      rcases member with rfl | rfl | rfl | ⟨added, _, rfl⟩ <;> trivial
  | enqueueUnique | enqueueUniqueIn =>
      simp only [Request.keys, List.mem_cons, List.not_mem_nil, or_false] at member
      rcases member with rfl | rfl <;> trivial
  | _ =>
      obtain rfl := List.mem_singleton.mp member
      trivial

/-- A request on a database that represents a store does what it does on the store: it has the
same answer, the database represents the store that results, and all other texts keep what they
hold. -/
theorem Represents.perform {database : Database} {store : Store}
    (represents : Represents ns database store) (proper : ∀ key ∈ request.keys, key.Proper ns) :
    ((request.script (Key.text ns)).run database).2 =
        (request.perform store).2.map (Answer.map (Key.text ns)) ∧
      Represents ns ((request.script (Key.text ns)).run database).1 (request.perform store).1 ∧
      ∀ text, (∀ key : Key, key.Tidy ns → key.text ns ≠ text) →
        ((request.script (Key.text ns)).run database).1 text = database text := by
  let named : Key → String → Prop := fun key text =>
    (key.Proper ns ∧ key.Stored) ∧ text = key.text ns
  have apart : ∀ key name key' name', named key name → named key' name' →
      (key = key' ↔ name = name') := by
    rintro key _ key' _ ⟨⟨own, _⟩, rfl⟩ ⟨⟨own', _⟩, rfl⟩
    exact ⟨fun same => by rw [same], Key.text_injective own own'⟩
  have mirrors := @Request.mirrors_script _ named _ _ (queuesApart_text ns)
    (fun _ _ names => names.2) request
    fun key member => ⟨⟨proper key member, stored_of_mem_keys member⟩, rfl⟩
  have agree : ∀ key name, named key name → database name = store.slots key := by
    rintro key _ ⟨⟨own, stored⟩, rfl⟩
    exact represents key own stored
  obtain ⟨answers, slots, frame⟩ := mirrors.run apart agree
  rw [Request.run_script] at answers slots
  refine ⟨Request.map_of_answered answers, fun key own stored => ?_, fun text other => ?_⟩
  · exact slots key _ ⟨⟨own, stored⟩, rfl⟩
  · apply frame
    rintro key ⟨⟨own, _⟩, rfl⟩
    exact other key own.tidy rfl

theorem proper_fetchKeys {pool : PoolID} {names : List String} {key : Key}
    (plain : ':' ∉ pool.toList)
    (listed : ∀ name ∈ names, Key.Plain name)
    (member : key ∈ names.flatMap (Lua.fetchKeys pool)) : key.Proper ns := by
  simp only [List.mem_flatMap, Lua.fetchKeys, List.mem_cons, List.not_mem_nil, or_false] at member
  obtain ⟨name, registered, rfl | rfl | rfl | rfl | rfl | rfl⟩ := member
  · exact listed name registered
  · exact ⟨plain, listed name registered⟩
  all_goals exact listed name registered

/-- Namespaces whose keys have different texts. -/
def SeparateNamespaces (ns ns' : String) : Prop :=
  ns ≠ ns' ∧ (ns ≠ "" ∧ ':' ∉ ns.toList) ∧ ns' ≠ "" ∧ ':' ∉ ns'.toList

/-- A request in one namespace leaves what another represents alone. -/
theorem Represents.frame {ns' : String} (separate : SeparateNamespaces ns ns')
    {database : Database} {store store' : Store} (represents : Represents ns database store)
    (other : Represents ns' database store')
    (proper : ∀ key ∈ request.keys, key.Proper ns) :
    Represents ns' ((request.script (Key.text ns)).run database).1 store' := by
  obtain ⟨different, ⟨named, plain⟩, named', plain'⟩ := separate
  intro key own stored
  rw [← other key own stored]
  apply (represents.perform proper).2.2
  intro key' tidy
  exact Key.text_ne_of_ne named named' plain plain' different tidy own.tidy

end Requests

namespace System

/-- The keys of the request that a step sends are kept apart by their texts: no job name ends in
a colon and a reserved word, pool identifiers have no colons, and keys of unique jobs are those
of the namespace. -/
def PlainKeys (deployment : Deployment) (state : State) (event : Event) : Prop :=
  ∀ sent ∈ request deployment state event, ∀ key ∈ sent.keys, key.Proper deployment.ns

instance (deployment : Deployment) (state : State) (event : Event) :
    Decidable (PlainKeys deployment state event) :=
  match sent : request deployment state event with
  | none => .isTrue (by rw [PlainKeys, sent]; exact fun _ absent => nomatch absent)
  | some own => decidable_of_iff (∀ key ∈ own.keys, key.Proper deployment.ns) (by
      rw [PlainKeys, sent]
      simp)

section Sharing

variable {Index : Type} [DecidableEq Index] {deployments : Index → Deployment}

/-- Deployments that share one database. -/
def shared (deployments : Index → Deployment) :
    TransitionSystem ((Index → State) × Database) (Index × Event) :=
  .sharing (fun index => system (deployments index))
    (fun index database state => Represents (deployments index).ns database state.redis)
    fun index state event database =>
      database.after (deployments index).ns (request (deployments index) state event)

/-- A deployment that has a database to itself. -/
def alone (deployment : Deployment) :
    TransitionSystem ((Unit → State) × Database) (Unit × Event) := shared fun _ => deployment

/-- The steps of all deployments send requests whose keys are kept apart. -/
def SharedPlainly (deployments : Index → Deployment) :
    (Index → State) × Database → Index × Event → Prop :=
  TransitionSystem.ownScope fun index => PlainKeys (deployments index)

/-- The database represents the stores of all deployments that share it, whatever the
interleaving, if their steps send only requests whose keys are kept apart. -/
theorem represents_of_plainKeys
    (separate : ∀ index other, index ≠ other →
      SeparateNamespaces (deployments index).ns (deployments other).ns)
    {states : Index → State} {database : Database}
    (reachable : (shared deployments).Reachable (SharedPlainly deployments) (states, database))
    (index : Index) : Represents (deployments index).ns database (states index).redis := by
  refine TransitionSystem.Reachable.shared ?_ ?_ reachable index
  · intro index state event next memory _ plain stepped related
    rw [redis_eq_of_step stepped]
    cases sent : request (deployments index) state event with
    | none => exact related
    | some own => exact (related.perform (plain own sent)).2.1
  · intro index other state event next memory state' different _ plain stepped acting related
    cases sent : request (deployments index) state event with
    | none => exact related
    | some own => exact acting.frame (separate index other different) related (plain own sent)

theorem represents_emptyState (ns : String) : Represents ns (fun _ => none) emptyState.redis := by
  intro key _ _
  cases key <;> simp [Store.slots, emptyState, Slot.ofList, Slot.ofZSet, Slot.ofSet,
    Slot.ofCounters, SortedSet.empty, FinMap.empty]

theorem initial_alone (deployment : Deployment) :
    (alone deployment).initial (fun _ => emptyState, fun _ => none) := fun _ =>
  ⟨initial_emptyState, represents_emptyState _⟩

end Sharing

end System
