import WorkQueue.Delivery.Requeueing
import WorkQueue.Unique.Pending

/-! # A duplicate is one of a waiting job

A unique call is refused as a duplicate while its key is set. The key is set together with
a waiting job and deleted by the worker that starts a job with the key, so that a job is
waiting whenever the key is set (`System.pending_of_key`).

A requeuer that does not know the name of a scheduled job sends the job to the dead jobs and
leaves the key behind. From then on calls are refused although no job waits.
-/

namespace System

variable {deployment : Deployment} {state next : State} {event : Event} {key : String}

/-- An ordinary step in which workers are answered and a requeuer that takes a unique job
off the scheduled ones can put it on its queue: it knows the name, and the numbers of the
payload are doubles. -/
def Requeueable (deployment : Deployment) (state : State) (event : Event) : Prop :=
  Ordinary state event ∧
    match event with
    | .pool id (.requeue .scheduled now) =>
        ∀ raw ∈ ((state.redis.zset .scheduled).upTo now.toInt).head?, raw.isUnique →
          raw.numbersFit ∧ ∃ name ∈ (deployment.pool id).names, name ≠ "" ∧
            raw.textField "name" = some name
    | .pool _ (.worker _ (.getUnique reply)) => reply = .ok
    | .pool _ (.worker _ (.delUnique reply)) => reply = .ok
    | _ => True

instance (deployment : Deployment) (state : State) (event : Event) :
    Decidable (Requeueable deployment state event) := by
  unfold Requeueable
  split <;> infer_instance

/-- A job waits while the key is set. -/
def Backed (key : String) (state : State) : Prop :=
  state.redis.unique key ≠ none → pending key state ≠ 0

/-- Contents with an item are not empty. -/
theorem add_single_ne_zero (rest : WaitingPlace → Multiset Candidate) (place : WaitingPlace)
    (candidate : Candidate) : rest + Pi.single place {candidate} ≠ 0 := by
  intro nothing
  have here := congrArg Multiset.card (congrFun nothing place)
  rw [Pi.add_apply, Pi.single_eq_same, Multiset.card_add, Multiset.card_singleton] at here
  exact Nat.succ_ne_zero _ here

/-- A job that is dropped leaves no key behind. -/
theorem Dropped.unique_eq_none {candidate : Candidate}
    (dropped : Dropped deployment key state event candidate)
    (requeueable : Requeueable deployment state event) : state.redis.unique key = none := by
  obtain ⟨-, answered⟩ := requeueable
  cases dropped with
  | unread get absent =>
      subst get
      exact absent answered
  | undeleted deletion =>
      subst deletion
      cases answered
  | @refused id now raw lua requeue due fresh decoded refused =>
      subst requeue
      obtain ⟨fit, name, known, nonempty, named⟩ :=
        answered raw due (RawJSON.isFresh_iff.mp fresh).1
      obtain ⟨pushed, -, executed⟩ :=
        Store.redisLuaZremLpushCmd_of_known due decoded named nonempty fit known
      exact (refused (by rw [executed])).elim

theorem Backed.step (backed : Backed key state) (sound : Sound deployment state)
    (nonempty : key ≠ "") (requeueable : Requeueable deployment state event)
    (stepped : System.step deployment state event = some next) : Backed key next := by
  have deleted : next.redis.unique key = none → Backed key next :=
    fun absent present => (present absent).elim
  cases step_flow sound nonempty requeueable.1 stepped with
  | same _ waiting kept =>
      rw [Backed, waiting, kept]
      exact backed
  | enqueued _ _ _ more _ =>
      intro _
      rw [more]
      exact add_single_ne_zero _ _ _
  | repeated _ _ _ waiting waits _ =>
      intro _
      rw [waiting]
      exact waits
  | updated _ _ present waiting _ =>
      intro _
      rw [waiting]
      exact backed present
  | moved _ _ _ after _ =>
      intro _
      rw [after]
      exact add_single_ne_zero _ _ _
  | dropped _ dropped _ kept => exact deleted (kept.trans (dropped.unique_eq_none requeueable))
  | deleted _ _ _ _ absent | stale _ _ _ _ _ absent => exact deleted absent

theorem Backed.reachable (nonempty : key ≠ "")
    (reached : (system deployment).Reachable (Requeueable deployment) state) :
    Backed key state := by
  refine reached.invariant (Backed key) ?_ ?_
  · intro start begun present
    exact (present (begun.unique key)).elim
  · intro source event target reachedSource backed requeueable stepped
    have sound := Sound.reachable (reachedSource.mono fun _ _ scope => scope.1)
    exact backed.step sound nonempty requeueable stepped

end System
