import WorkQueue.Periodic.Enqueuer

/-! # The search for occurrences ends

An enqueuer asks for the occurrences of a job one after the other until one lies beyond the
horizon. A schedule that finds no occurrence within five years answers with the zero time,
which lies before every horizon: it is added like an occurrence and the search goes on from
there. So the enqueueing ends with occurrences between now and the horizon if and only if the
schedules find an occurrence whenever they are asked (`Periodic.enqueue_ends_iff`).
-/

namespace Periodic

/-- The zero time, in seconds since the epoch. -/
def zeroTime : ℤ := -62135596800

/-- Five years, in seconds. -/
def fiveYears : ℤ := 5 * 365 * 86400

/-- What a parsed spec answers: the least occurrence after a time, or the zero time if there is
none within five years. -/
structure Cron (occurs : ℤ → Prop) (next : ℤ → ℤ) : Prop where
  answer : ∀ t, (occurs (next t) ∧ t < next t ∧ ∀ other, occurs other → t < other →
      next t ≤ other) ∨
    (next t = zeroTime ∧ ∀ other, occurs other → t < other → t + fiveYears < other)

/-- The occurrences that are added from a state on, unless there are too many. -/
def enqueueLoop (schedules : Schedules) : ℕ → State → Option (List (PeriodicJob × ℤ))
  | _, .finishing _ => some []
  | fuel + 1, .enqueuing now job rest t =>
      (enqueueLoop schedules fuel (proceed schedules now job rest (schedules job.spec t))).map
        ((job, t) :: ·)
  | _, _ => none

/-- The occurrences that an enqueuer adds at a time, unless there are too many. -/
def enqueue (schedules : Schedules) (jobs : List PeriodicJob) (now : Int64) (fuel : ℕ) :
    Option (List (PeriodicJob × ℤ)) := enqueueLoop schedules fuel (begin schedules now jobs)

/-- The loop follows the steps of an enqueuer whose commands are answered. -/
theorem enqueueLoop_step {schedules : Schedules} {jobs rest : List PeriodicJob} {job : PeriodicJob}
    {last last' : Option Int64} {clock now : Int64} {t : ℤ} {call : Option Enqueuer.Call}
    {next : State}
    (stepped : step schedules jobs last clock (.enqueuing now job rest t) (.zadd .ok) =
      some (call, last', next)) (fuel : ℕ) :
    call = some (occurrence job.jobName job.spec (Int64.ofInt t)) ∧
      enqueueLoop schedules (fuel + 1) (.enqueuing now job rest t) =
        (enqueueLoop schedules fuel next).map ((job, t) :: ·) := by
  cases stepped
  exact ⟨rfl, rfl⟩

/-- From a state on, finitely many occurrences are added, all between now and the horizon. -/
def Ends (schedules : Schedules) (now : Int64) (state : State) : Prop :=
  ∃ fuel additions, enqueueLoop schedules fuel state = some additions ∧
    ∀ addition ∈ additions, now.toInt < addition.2 ∧ addition.2 < now.toInt + horizon

section Loop

variable {schedules : Schedules} {now : Int64} {job : PeriodicJob} {rest : List PeriodicJob} {t : ℤ}

theorem proceed_eq : proceed schedules now job rest t =
    if t < now.toInt + horizon then .enqueuing now job rest t else begin schedules now rest := by
  cases rest <;> rfl

theorem ends_finishing : Ends schedules now (.finishing now) := ⟨0, [], rfl, by simp⟩

theorem ends_proceed_beyond (beyond : ¬ t < now.toInt + horizon) :
    Ends schedules now (proceed schedules now job rest t) ↔
      Ends schedules now (begin schedules now rest) := by
  rw [proceed_eq, if_neg beyond]

theorem ends_proceed_within (within : t < now.toInt + horizon) :
    Ends schedules now (proceed schedules now job rest t) ↔
      now.toInt < t ∧
        Ends schedules now (proceed schedules now job rest (schedules job.spec t)) := by
  rw [proceed_eq, if_pos within]
  constructor
  · rintro ⟨fuel, additions, ended, inside⟩
    cases fuel with
    | zero => simp only [enqueueLoop, reduceCtorEq] at ended
    | succ fuel =>
        rw [enqueueLoop] at ended
        obtain ⟨others, looped, rfl⟩ := Option.map_eq_some_iff.mp ended
        exact ⟨(inside _ List.mem_cons_self).1, fuel, others, looped,
          fun addition member => inside addition (List.mem_cons_of_mem _ member)⟩
  · rintro ⟨later, fuel, additions, ended, inside⟩
    refine ⟨fuel + 1, (job, t) :: additions, ?_, ?_⟩
    · rw [enqueueLoop, ended, Option.map_some]
    · rw [List.forall_mem_cons]
      exact ⟨⟨later, within⟩, inside⟩

end Loop

/-- The schedule finds an occurrence after a time and after every occurrence from then on up to
a bound. -/
def Finds (occurs : ℤ → Prop) (next : ℤ → ℤ) (start stop : ℤ) : Prop :=
  ∀ t, t = start ∨ occurs t → start ≤ t → t < stop → next t ≠ zeroTime

section Search

variable {occurs : ℤ → Prop} {next : ℤ → ℤ} {start stop : ℤ}

/-- Asking once and searching on from the answer finds everything. -/
theorem Cron.finds_iff (cron : Cron occurs next) (early : start < stop) :
    Finds occurs next start stop ↔
      next start ≠ zeroTime ∧ (next start < stop → Finds occurs next (next start) stop) := by
  constructor
  · intro finds
    have found := finds start (.inl rfl) le_rfl early
    obtain ⟨occurs, after, -⟩ := (cron.answer start).resolve_right fun none => found none.1
    refine ⟨found, fun _ t searched later inside => finds t (.inr ?_) (after.le.trans later) inside⟩
    rcases searched with rfl | occurrence
    · exact occurs
    · exact occurrence
  · rintro ⟨found, onward⟩ t searched later inside
    obtain ⟨-, after, least⟩ := (cron.answer start).resolve_right fun none => found none.1
    rcases later.eq_or_lt with rfl | strictly
    · exact found
    · have occurrence : occurs t := searched.resolve_left strictly.ne'
      have reached := least t occurrence strictly
      exact onward (reached.trans_lt inside) t (.inr occurrence) reached inside

/-- The search for the occurrences of one job, from a time on. -/
theorem ends_search {schedules : Schedules} {job : PeriodicJob} {rest : List PeriodicJob}
    {now : Int64} (cron : Cron occurs (schedules job.spec)) (clock : zeroTime ≤ now.toInt)
    (later : now.toInt ≤ start) (early : start < now.toInt + horizon) :
    Ends schedules now (proceed schedules now job rest (schedules job.spec start)) ↔
      Finds occurs (schedules job.spec) start (now.toInt + horizon) ∧
        Ends schedules now (begin schedules now rest) := by
  -- The search moves towards the horizon as long as it finds something.
  induction distance : (now.toInt + horizon - start).toNat using Nat.strong_induction_on
    generalizing start with
  | _ distance ih =>
      rw [cron.finds_iff early]
      by_cases missing : schedules job.spec start = zeroTime
      · have within : schedules job.spec start < now.toInt + horizon := by
          rw [missing]
          exact clock.trans_lt (by simp [horizon])
        rw [ends_proceed_within within, missing]
        constructor
        · rintro ⟨after, -⟩
          exact (clock.not_gt after).elim
        · rintro ⟨⟨found, -⟩, -⟩
          exact (found rfl).elim
      · obtain ⟨-, after, -⟩ := (cron.answer start).resolve_right fun none => missing none.1
        by_cases within : schedules job.spec start < now.toInt + horizon
        · rw [ends_proceed_within within,
            ih _ (by omega) (later.trans after.le) within rfl]
          simp only [later.trans_lt after, true_and, ne_eq, missing, not_false_eq_true, within,
            forall_const]
        · rw [ends_proceed_beyond within]
          simp only [ne_eq, missing, not_false_eq_true, within, false_imp_iff, and_self, true_and]

end Search

/-- At every time, for all periodic jobs, the enqueueing ends after finitely many additions, all
strictly between now and the horizon, if and only if each schedule finds an occurrence when it
is asked for one after now or after an occurrence before the horizon. -/
theorem enqueue_ends_iff {schedules : Schedules} {occurs : String → ℤ → Prop}
    {jobs : List PeriodicJob} (cron : ∀ job ∈ jobs, Cron (occurs job.spec) (schedules job.spec))
    {now : Int64} (clock : zeroTime ≤ now.toInt) :
    (∃ fuel additions, enqueue schedules jobs now fuel = some additions ∧
        ∀ addition ∈ additions, now.toInt < addition.2 ∧ addition.2 < now.toInt + horizon) ↔
      ∀ job ∈ jobs, Finds (occurs job.spec) (schedules job.spec) now.toInt
        (now.toInt + horizon) := by
  change Ends schedules now (begin schedules now jobs) ↔ _
  induction jobs with
  | nil => simp only [begin, ends_finishing, List.not_mem_nil, false_imp_iff, implies_true]
  | cons job rest ih =>
      rw [begin, ends_search (cron job List.mem_cons_self) clock le_rfl (by simp [horizon]),
        ih fun other member => cron other (List.mem_cons_of_mem _ member), List.forall_mem_cons]

theorem enqueue_ends_hourly :
    Cron (fun t => t % 3600 = 0) (fun t => (t / 3600 + 1) * 3600) ∧
      ∃ fuel additions, enqueue (fun _ t => (t / 3600 + 1) * 3600)
          [{ jobName := "send", spec := "0 0 * * * *" }] 3500 fuel = some additions ∧
        ∀ addition ∈ additions, 3500 < addition.2 ∧ addition.2 < 3740 := by
  have cron : Cron (fun t => t % 3600 = 0) (fun t => (t / 3600 + 1) * 3600) :=
    ⟨fun t => .inl ⟨by omega, by omega, fun other _ _ => by omega⟩⟩
  refine ⟨cron, ?_⟩
  refine (@enqueue_ends_iff (fun _ t => (t / 3600 + 1) * 3600) (fun _ t => t % 3600 = 0)
    [{ jobName := "send", spec := "0 0 * * * *" }] (fun _ _ => cron) 3500 (by decide)).mpr ?_
  intro job _ t _ later _ zero
  simp only [zeroTime] at zero
  change (3500 : ℤ) ≤ t at later
  omega

/-- The thirtieth of February. -/
def never : PeriodicJob := { jobName := "send", spec := "0 0 0 30 2 *" }

/-- A job that never occurs is scheduled for the zero time over and over again. -/
theorem enqueue_never_ends :
    Cron (fun _ => False) (fun _ => zeroTime) ∧
      (∀ fuel, enqueue (fun _ _ => zeroTime) [never] 1700000000 fuel = none) ∧
      step (fun _ _ => zeroTime) [never] none 1700000000
          (begin (fun _ _ => zeroTime) 1700000000 [never]) (.zadd .ok) =
        some (some (occurrence "send" "0 0 0 30 2 *" (-62135596800)), none,
          begin (fun _ _ => zeroTime) 1700000000 [never]) := by
  refine ⟨⟨fun _ => .inr ⟨rfl, by simp⟩⟩, fun fuel => ?_, rfl⟩
  have again : begin (fun _ _ => zeroTime) 1700000000 [never] =
      .enqueuing 1700000000 never [] zeroTime := rfl
  rw [enqueue, again]
  induction fuel with
  | zero => rfl
  | succ fuel ih =>
      rw [enqueueLoop]
      change (enqueueLoop _ fuel (.enqueuing 1700000000 never [] zeroTime)).map _ = none
      rw [ih, Option.map_none]

end Periodic
