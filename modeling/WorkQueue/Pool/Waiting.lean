import WorkQueue.Foundation.Progress
import WorkQueue.Pool.Handshake

/-! # Calls that wait for a worker

A call of `drain` or `stop` returns when the loops have taken its requests and answered them. As
long as one call returns before the next is made, no call blocks for good: there is always a way
on, without another job, in which it returns (`calls_return`).

Calls of `drain` that overlap can be left behind. The loop of a worker keeps a flag and not the
number of requests it has taken, so it answers one call however many have asked, and none at all
if it takes the request to stop first. All calls beyond that answer wait for an answer from then
on, through every stop and start (`drains_left_behind`).
-/

namespace Handshake

section Owed

variable {state next target : State} {event : Event}

/-- The number of calls of `drain` that wait for the worker. -/
def State.waiting (state : State) : ℕ := state.drains.count .awaitingWorker

/-- Whether the loop takes requests or will do so after its job. -/
def WorkerLoop.serves : WorkerLoop → Bool
  | .unborn | .acknowledging | .ended => false
  | .selecting | .fetching | .announcing _ | .running _ | .concluding _ _ | .settling
  | .reporting => true

/-- The number of answers that the worker is going to give. -/
def State.owed (state : State) : ℕ := if state.drained ∧ state.worker.serves then 1 else 0

theorem WorkerMove.serves {drained : Bool} {worker worker' : WorkerLoop}
    (moved : WorkerMove drained worker event worker') : worker.serves ∧ worker'.serves := by
  cases moved with
  | timer | fetchFailed | handlerEnds | settle => exact ⟨rfl, rfl⟩
  | fetchedNothing => cases drained <;> exact ⟨rfl, rfl⟩
  | fetched task handled => cases handled <;> exact ⟨rfl, rfl⟩

theorem State.owed_le_one (state : State) : state.owed ≤ 1 := by
  unfold owed
  split <;> decide

theorem State.owed_of_not_serves (gone : state.worker.serves = false) : state.owed = 0 := by
  simp only [owed, gone, Bool.false_eq_true, and_false, ↓reduceIte]

theorem State.owed_of_not_drained (calm : state.drained = false) : state.owed = 0 := by
  simp only [owed, calm, Bool.false_eq_true, false_and, ↓reduceIte]

theorem State.owed_of_drained (drained : state.drained = true) (serves : state.worker.serves) :
    state.owed = 1 := by
  simp only [owed, drained, serves, and_self, ↓reduceIte]

/-- The worker answers only if it was asked. -/
def State.Asked (state : State) : Prop := state.worker = .reporting → state.drained = true

theorem WorkerMove.drained_of_reporting {drained : Bool} {worker : WorkerLoop}
    (moved : WorkerMove drained worker event .reporting) : drained = true := by
  generalize reported : WorkerLoop.reporting = worker' at moved
  cases moved with
  | timer | fetchFailed | handlerEnds | settle => cases reported
  | fetchedNothing =>
      cases drained with
      | false => cases reported
      | true => rfl
  | fetched task handled => cases handled <;> cases reported

theorem Case.asked (moved : Case state event next) (asked : state.Asked) : next.Asked := by
  intro reporting
  cases moved with
  | started | workerBegun | announced | concluded | workerAnswered | workerStopping
  | workerStopped => cases reporting
  | worked moved =>
      subst reporting
      exact moved.drained_of_reporting
  | workerTaken => rfl
  | observerBegun | stopCalled | drainCalled | checkedIn | received | emptied | ticked
  | observerTaken | observerTakenByStop | observerAnswered | observerAnsweredStop
  | observerStopping | observerStopped => exact asked reporting

/-- How the number of calls at a stage changes when one of them goes on. -/
theorem count_set_add {drains : List DrainCall} {call : ℕ} {source : DrainCall}
    (there : drains[call]? = some source) (target stage : DrainCall) :
    (drains.set call target).count stage + (if source = stage then 1 else 0) =
      drains.count stage + if target = stage then 1 else 0 := by
  obtain ⟨inside, rfl⟩ := List.getElem?_eq_some_iff.mp there
  have moved := (List.set_perm_cons_eraseIdx inside target).count_eq stage
  have kept := (List.getElem_cons_eraseIdx_perm inside).count_eq stage
  simp only [List.count_cons, beq_iff_eq] at moved kept
  omega

theorem count_eraseIdx_add {drains : List DrainCall} {call : ℕ} {source : DrainCall}
    (there : drains[call]? = some source) (stage : DrainCall) :
    (drains.eraseIdx call).count stage + (if source = stage then 1 else 0) =
      drains.count stage := by
  obtain ⟨inside, rfl⟩ := List.getElem?_eq_some_iff.mp there
  have kept := (List.getElem_cons_eraseIdx_perm inside).count_eq stage
  simpa only [List.count_cons, beq_iff_eq] using kept

/-- No step lowers the number of calls beyond the answers to come. -/
theorem Case.waiting_add_owed (moved : Case state event next) (asked : state.Asked) :
    state.waiting + next.owed ≤ next.waiting + state.owed := by
  cases moved with
  | started | workerStopping | workerStopped =>
      rw [State.owed_of_not_serves rfl]
      exact Nat.le_add_right _ _
  | workerBegun =>
      rw [State.owed_of_not_drained rfl]
      exact Nat.le_add_right _ _
  | worked moved =>
      simp only [State.waiting, State.owed, moved.serves.1, moved.serves.2, le_refl]
  | announced there | concluded there =>
      simp only [State.waiting, State.owed, State.send, there, WorkerLoop.serves, le_refl]
  | drainCalled =>
      refine Nat.add_le_add_right ?_ _
      rw [State.waiting, State.waiting, List.count_append]
      exact Nat.le_add_right _ _
  | @workerTaken call selecting there =>
      have taken := count_set_add there .awaitingWorker .awaitingWorker
      have bound := State.owed_le_one { state with
        drained := true, drains := state.drains.set call .awaitingWorker }
      simp only [reduceCtorEq, ↓reduceIte] at taken
      simp only [State.waiting]
      omega
  | @workerAnswered call reporting there =>
      have answered := count_set_add there .sendingObserver .awaitingWorker
      have owed : state.owed = 1 := State.owed_of_drained (asked reporting) (reporting ▸ rfl)
      rw [State.owed_of_not_drained rfl, owed]
      simp only [reduceCtorEq, ↓reduceIte] at answered
      simp only [State.waiting]
      omega
  | observerTaken selecting there =>
      have taken := count_set_add there .awaitingObserver .awaitingWorker
      simp only [reduceCtorEq, ↓reduceIte] at taken
      exact (Nat.add_le_add_right taken.ge _)
  | observerAnswered reporting there =>
      have answered := count_eraseIdx_add there .awaitingWorker
      simp only [reduceCtorEq, ↓reduceIte] at answered
      exact (Nat.add_le_add_right answered.ge _)
  | observerBegun | stopCalled | checkedIn | received | emptied | ticked | observerTakenByStop
  | observerAnsweredStop | observerStopping | observerStopped => exact le_rfl

/-- Every step and every order of them. -/
def Anything (_ : State) (_ : Event) : Prop := True

instance (state : State) (event : Event) : Decidable (Anything state event) :=
  inferInstanceAs (Decidable True)

theorem asked_of_reachable (reachable : system.Reachable Anything state) : state.Asked := by
  apply reachable.invariant State.Asked
  · intro state start reporting
    rw [start] at reporting
    cases reporting
  · intro source event target _ asked _ stepped
    exact (step_cases stepped).asked asked

/-- Of the calls of `drain` that wait for the worker, all but the one that it will answer are
waiting at any later time, or others in their place: the number of calls that wait never falls
below what was left behind, whatever is called, started or stopped later. -/
theorem drains_left_behind (reachable : system.Reachable Anything state)
    (leads : system.Leads Anything state target) :
    state.waiting ≤ target.waiting + state.owed := by
  have bounded : target.Asked ∧ state.waiting + target.owed ≤ target.waiting + state.owed := by
    apply leads.invariant fun later =>
      later.Asked ∧ state.waiting + later.owed ≤ later.waiting + state.owed
    · exact ⟨asked_of_reachable reachable, le_rfl⟩
    · intro later event next holds _ stepped
      obtain ⟨asked, bound⟩ := holds
      have moved := step_cases stepped
      have grown := moved.waiting_add_owed asked
      exact ⟨moved.asked asked, by omega⟩
  exact (Nat.le_add_right _ _).trans bounded.2

/-- The worker takes the request of `stop` after that of `drain`, whose call never returns. -/
theorem drains_left_behind_stop : ∃ state, (system.Reachable Anything state ∧
    state.waiting = 1 ∧ state.owed = 0) ∧
      ∀ target, system.Leads Anything state target → target.drains ≠ [] := by
  obtain ⟨state, reachable, waiting, owed⟩ : ∃ state, system.Reachable Anything state ∧
      state.waiting = 1 ∧ state.owed = 0 :=
    TransitionSystem.Reachable.exists_of_run
      [.start, .beginWorker, .beginObserver, .callDrain, .drainWorker 0, .callStop, .stopWorker]
      rfl (by decide +kernel)
  refine ⟨state, ⟨reachable, waiting, owed⟩, ?_⟩
  intro target leads none
  have left := drains_left_behind reachable leads
  rw [waiting, owed, State.waiting, none] at left
  exact absurd left (by decide)

end Owed

section InTurn

variable {state next target : State} {event : Event}

/-- A call is made when the one before it has returned, and `drain` only of a worker that is
started. -/
def InTurn (state : State) (event : Event) : Prop :=
  (event = .callDrain → state.drains = [] ∧ state.stop = .before) ∧
    (event = .callStop → state.drains = [])

instance (state : State) (event : Event) : Decidable (InTurn state event) :=
  inferInstanceAs (Decidable (_ ∧ _))

/-- Whether the observer has taken a request to drain and not answered it. -/
def ObserverLoop.serving : ObserverLoop → Bool
  | .draining | .reporting => true
  | .unborn | .selecting | .acknowledging | .ended => false

/-- There is at most one call, and the loops know about it. -/
structure Alone (state : State) : Prop where
  single : state.drains = [] ∨ ∃ call, state.drains = [call] ∧ state.stop = .before
  drained : state.drained = true ↔ state.drains = [.awaitingWorker]
  unborn : state.worker = .unborn → state.drained = false
  serving : state.observer.serving = true ↔
    state.drains = [.awaitingObserver] ∨ state.stop = .awaitingDrain

theorem Alone.eq_of_getElem? (alone : Alone state) {call : ℕ} {stage : DrainCall}
    (there : state.drains[call]? = some stage) :
    state.drains = [stage] ∧ call = 0 ∧ state.stop = .before := by
  obtain none | ⟨other, one, before⟩ := alone.single
  · rw [none] at there
    cases there
  · rw [one] at there ⊢
    cases call with
    | zero => exact ⟨congrArg (fun call => [call]) (Option.some.inj there), rfl, before⟩
    | succ call => cases there

theorem WorkerMove.ne_unborn {drained : Bool} {worker worker' : WorkerLoop}
    (moved : WorkerMove drained worker event worker') : worker' ≠ .unborn := by
  intro unborn
  have serves := moved.serves.2
  rw [unborn] at serves
  cases serves

theorem Alone.of_nil (none : state.drains = []) (calm : state.drained = false)
    (serving : state.observer.serving = true ↔ state.stop = .awaitingDrain) : Alone state where
  single := .inl none
  drained := by simp only [calm, none, Bool.false_eq_true, List.nil_eq, reduceCtorEq]
  unborn := fun _ => calm
  serving := by simpa only [none, List.nil_eq, reduceCtorEq, false_or] using serving

theorem Alone.of_singleton {call : DrainCall} (one : state.drains = [call])
    (before : state.stop = .before) (drained : state.drained = true ↔ call = .awaitingWorker)
    (unborn : state.worker = .unborn → state.drained = false)
    (serving : state.observer.serving = true ↔ call = .awaitingObserver) : Alone state where
  single := .inr ⟨call, one, before⟩
  drained := by simpa only [one, List.cons.injEq, and_true] using drained
  unborn := unborn
  serving := by
    simpa only [one, before, List.cons.injEq, and_true, reduceCtorEq, or_false] using serving

theorem Alone.drains_eq_nil (alone : Alone state) (later : state.stop ≠ .before) :
    state.drains = [] := by
  obtain none | ⟨_, _, before⟩ := alone.single
  · exact none
  · exact absurd before later

theorem Alone.not_drained (alone : Alone state) {drains : List DrainCall}
    (known : state.drains = drains) (other : drains ≠ [.awaitingWorker]) :
    state.drained = false := by
  rw [Bool.eq_false_iff, ne_eq, alone.drained, known]
  exact other

theorem Case.alone (moved : Case state event next) (turn : InTurn state event)
    (alone : Alone state) : Alone next := by
  cases moved with
  | started returned =>
      have none := alone.drains_eq_nil (returned ▸ nofun)
      exact .of_nil none (alone.not_drained none nofun) ⟨nofun, nofun⟩
  | workerBegun unborn =>
      exact { alone with drained := alone.unborn unborn ▸ alone.drained, unborn := nofun }
  | observerBegun there | emptied there =>
      exact { alone with serving := by rw [← alone.serving, there]; rfl }
  | stopCalled before =>
      have none := turn.2 rfl
      refine .of_nil none (alone.not_drained none nofun) ?_
      simpa only [none, before, List.nil_eq, reduceCtorEq, false_or] using alone.serving
  | drainCalled =>
      obtain ⟨none, before⟩ := turn.1 rfl
      refine .of_singleton (congrArg (· ++ _) none) before ?_ alone.unborn ?_
      · simpa only [none, List.nil_eq, reduceCtorEq] using alone.drained
      · simpa only [none, before, List.nil_eq, reduceCtorEq, false_or] using alone.serving
  | worked moved => exact { alone with unborn := fun unborn => absurd unborn moved.ne_unborn }
  | announced | concluded => exact { alone with unborn := nofun }
  | checkedIn | received | ticked => exact { alone with }
  | workerTaken selecting there =>
      obtain ⟨one, rfl, before⟩ := alone.eq_of_getElem? there
      refine .of_singleton (congrArg (List.set · 0 .awaitingWorker) one) before
        ⟨fun _ => rfl, fun _ => rfl⟩ (selecting ▸ nofun) ?_
      simpa only [one, before, List.cons.injEq, and_true, reduceCtorEq, or_false]
        using alone.serving
  | workerAnswered reporting there =>
      obtain ⟨one, rfl, before⟩ := alone.eq_of_getElem? there
      refine .of_singleton (congrArg (List.set · 0 .sendingObserver) one) before
        ⟨nofun, nofun⟩ nofun ?_
      simpa only [one, before, List.cons.injEq, and_true, reduceCtorEq, or_false]
        using alone.serving
  | workerStopping _ stopping | workerStopped _ stopping =>
      have none := alone.drains_eq_nil (stopping ▸ nofun)
      refine .of_nil none (alone.not_drained none nofun) ?_
      simpa only [none, stopping, List.nil_eq, reduceCtorEq, false_or] using alone.serving
  | observerTaken selecting there =>
      obtain ⟨one, rfl, before⟩ := alone.eq_of_getElem? there
      refine .of_singleton (congrArg (List.set · 0 .awaitingObserver) one) before ?_ alone.unborn
        ⟨fun _ => rfl, fun _ => rfl⟩
      simpa only [one, List.cons.injEq, and_true, reduceCtorEq] using alone.drained
  | observerAnswered reporting there =>
      obtain ⟨one, rfl, before⟩ := alone.eq_of_getElem? there
      refine .of_nil (congrArg (·.eraseIdx 0) one) (alone.not_drained one nofun) ?_
      exact ⟨nofun, fun awaiting => nomatch before.symm.trans awaiting⟩
  | observerTakenByStop _ stopping =>
      have none := alone.drains_eq_nil (stopping ▸ nofun)
      exact .of_nil none (alone.not_drained none nofun) ⟨fun _ => rfl, fun _ => rfl⟩
  | observerAnsweredStop _ stopping | observerStopping _ stopping | observerStopped _ stopping =>
      have none := alone.drains_eq_nil (stopping ▸ nofun)
      exact .of_nil none (alone.not_drained none nofun) ⟨nofun, nofun⟩

/-- Whether a step winds up what is under way: no call is made, no job begins and none checks
in. -/
def Event.windsUp : Event → Bool
  | .start | .callStop | .callDrain | .fetched _ _ | .checkin _ _ _ _ => false
  | .beginWorker | .beginObserver | .timer | .fetchFailed | .fetchedNothing | .observeStarted _
  | .handlerEnds _ | .observeDone | .settle | .drainWorker _ | .workerDrained _ | .stopWorker
  | .workerStopped | .observe _ | .drainObservation _ | .observationsDrained _ | .ticker _
  | .drainObserver _ | .observerDrained _ | .stopObserver | .observerStopped => true

/-- Only what is under way goes on. -/
def WindingUp (_ : State) (event : Event) : Prop := event.windsUp

theorem WindingUp.turn (winding : WindingUp state event) : InTurn state event := by
  constructor
  · intro called
    rw [called] at winding
    cases winding
  · intro called
    rw [called] at winding
    cases winding

/-- The steps that a call of `stop` has before it. -/
def StopCall.remaining : StopCall → ℕ
  | .sendingWorker => 6
  | .awaitingWorker => 5
  | .sendingDrain => 4
  | .awaitingDrain => 3
  | .sendingObserver => 2
  | .awaitingObserver => 1
  | .before | .returned => 0

/-- The steps that a call of `drain` has before it. -/
def DrainCall.remaining : DrainCall → ℕ
  | .sendingWorker => 4
  | .awaitingWorker => 3
  | .sendingObserver => 2
  | .awaitingObserver => 1

/-- How far the loop is from its next rendezvous. An observation that it sends is one more for the
observer to receive. -/
def WorkerLoop.distance (drained : Bool) : WorkerLoop → ℕ
  | .announcing _ => 9
  | .running _ => 7
  | .concluding _ _ => 6
  | .settling | .unborn => 4
  | .selecting => if drained then 3 else 1
  | .fetching => 2
  | .reporting | .acknowledging => 1
  | .ended => 0

/-- How far the loop is from its next rendezvous, when it has received everything. -/
def ObserverLoop.distance : ObserverLoop → ℕ
  | .unborn => 3
  | .draining => 2
  | .reporting => 1
  | .selecting | .acknowledging | .ended => 0

/-- How far the calls are from their return. -/
def State.distance (state : State) : ℕ :=
  10 * (state.stop.remaining + (state.drains.map DrainCall.remaining).sum) +
    state.worker.distance state.drained + state.observer.distance + state.observations.length

/-- All calls have returned. -/
def State.Calm (state : State) : Prop :=
  state.drains = [] ∧ (state.stop = .before ∨ state.stop = .returned)

/-- A step brings the calls closer to their return. -/
def State.Advances (state : State) : Prop :=
  ∃ event next, WindingUp state event ∧ step state event = some next ∧
    next.distance < state.distance

/-- While the observer is idle, the loop of the worker comes to its select, to the answer that a
call waits for, or to its end. -/
theorem advances_of_worker (alone : Alone state) (consistent : Consistent state)
    (asked : state.Asked) (none : state.observations = [])
    (elsewhere : state.worker ≠ .selecting ∧ state.worker ≠ .ended) : state.Advances := by
  obtain ⟨worker, drained, observer, observations, world, stop, drains⟩ := state
  subst none
  cases worker with
  | unborn =>
      refine ⟨.beginWorker, _, rfl, rfl, ?_⟩
      simp [State.distance, WorkerLoop.distance]
  | selecting => exact absurd rfl elsewhere.1
  | fetching =>
      refine ⟨.fetchedNothing, _, rfl, rfl, ?_⟩
      cases drained <;> simp [State.distance, WorkerLoop.distance]
  | announcing task =>
      refine ⟨.observeStarted 0, _, rfl, rfl, ?_⟩
      simp +arith [State.distance, State.send, WorkerLoop.distance]
  | running task =>
      refine ⟨.handlerEnds .none, _, rfl, rfl, ?_⟩
      simp [State.distance, WorkerLoop.distance]
  | concluding task err =>
      refine ⟨.observeDone, _, rfl, rfl, ?_⟩
      simp +arith [State.distance, State.send, WorkerLoop.distance]
  | settling =>
      refine ⟨.settle, _, rfl, rfl, ?_⟩
      cases drained <;> simp [State.distance, WorkerLoop.distance]
  | reporting =>
      obtain rfl : drains = [.awaitingWorker] := alone.drained.mp (asked rfl)
      refine ⟨.workerDrained 0, _, rfl, rfl, ?_⟩
      simp [State.distance, WorkerLoop.distance, DrainCall.remaining]
  | acknowledging =>
      have agree := consistent.agree
      cases stop with
      | awaitingWorker =>
          refine ⟨.workerStopped, _, rfl, rfl, ?_⟩
          simp +arith [State.distance, WorkerLoop.distance, StopCall.remaining]
      | before | sendingWorker | sendingDrain | awaitingDrain | sendingObserver
      | awaitingObserver | returned => cases agree.1
  | ended => exact absurd rfl elsewhere.2

/-- If both loops wait in their selects, one of them takes the next request. A worker that has
taken the request to drain fetches once more. -/
theorem advances_of_selecting (alone : Alone state) (pending : ¬ state.Calm)
    (agree : Agree state.worker state.observer state.stop)
    (selecting : state.worker = .selecting) (idle : state.observer = .selecting) :
    state.Advances := by
  obtain ⟨worker, drained, observer, observations, world, stop, drains⟩ := state
  subst selecting idle
  obtain none | ⟨call, one, before⟩ := alone.single
  · subst none
    cases stop with
    | before => exact absurd ⟨rfl, .inl rfl⟩ pending
    | sendingWorker =>
        refine ⟨.stopWorker, _, rfl, rfl, ?_⟩
        simp only [State.distance, WorkerLoop.distance, StopCall.remaining]
        split <;> omega
    | awaitingWorker | sendingDrain | awaitingDrain | sendingObserver | awaitingObserver
    | returned => cases agree.1
  · subst one before
    cases call with
    | sendingWorker =>
        refine ⟨.drainWorker 0, _, rfl, rfl, ?_⟩
        cases drained <;> simp +arith [State.distance, WorkerLoop.distance, DrainCall.remaining]
    | awaitingWorker =>
        obtain rfl : drained = true := alone.drained.mpr rfl
        refine ⟨.timer, _, rfl, rfl, ?_⟩
        simp [State.distance, WorkerLoop.distance]
    | sendingObserver =>
        refine ⟨.drainObserver (some 0), _, rfl, rfl, ?_⟩
        simp +arith [State.distance, ObserverLoop.distance, DrainCall.remaining]
    | awaitingObserver => cases alone.serving.mpr (.inl rfl)

/-- If the worker is over and its observer waits in its select, that takes the next request. -/
theorem advances_of_ended (alone : Alone state)
    (agree : Agree state.worker state.observer state.stop) (ended : state.worker = .ended)
    (idle : state.observer = .selecting) : state.Advances := by
  obtain ⟨worker, drained, observer, observations, world, stop, drains⟩ := state
  subst ended idle
  cases stop with
  | before | sendingWorker | awaitingWorker => cases agree.1
  | sendingDrain =>
      refine ⟨.drainObserver none, _, rfl, rfl, ?_⟩
      simp +arith [State.distance, ObserverLoop.distance, StopCall.remaining]
  | awaitingDrain => cases alone.serving.mpr (.inr rfl)
  | sendingObserver =>
      refine ⟨.stopObserver, _, rfl, rfl, ?_⟩
      simp +arith [State.distance, ObserverLoop.distance, StopCall.remaining]
  | awaitingObserver | returned => cases agree.2

/-- The observer begins, receives what there is, and answers the call that has asked. -/
theorem advances_of_observer (alone : Alone state) (pending : ¬ state.Calm)
    (agree : Agree state.worker state.observer state.stop)
    (busy : state.observer ≠ .selecting ∨ state.observations ≠ []) : state.Advances := by
  obtain ⟨worker, drained, observer, observations, world, stop, drains⟩ := state
  cases observer with
  | unborn =>
      refine ⟨.beginObserver, _, rfl, rfl, ?_⟩
      simp [State.distance, ObserverLoop.distance]
  | selecting =>
      cases observations with
      | nil => exact absurd rfl (busy.resolve_left (absurd rfl))
      | cons obv rest =>
          refine ⟨.observe true, _, rfl, rfl, ?_⟩
          simp [State.distance]
  | draining =>
      cases observations with
      | nil =>
          refine ⟨.observationsDrained true, _, rfl, rfl, ?_⟩
          simp [State.distance, ObserverLoop.distance]
      | cons obv rest =>
          refine ⟨.drainObservation true, _, rfl, rfl, ?_⟩
          simp [State.distance]
  | reporting =>
      obtain one | awaiting := alone.serving.mp rfl
      · subst one
        refine ⟨.observerDrained (some 0), _, rfl, rfl, ?_⟩
        simp +arith [State.distance, ObserverLoop.distance, DrainCall.remaining]
      · subst awaiting
        refine ⟨.observerDrained none, _, rfl, rfl, ?_⟩
        simp +arith [State.distance, ObserverLoop.distance, StopCall.remaining]
  | acknowledging =>
      cases stop with
      | awaitingObserver =>
          refine ⟨.observerStopped, _, rfl, rfl, ?_⟩
          simp +arith [State.distance, ObserverLoop.distance, StopCall.remaining]
      | before | sendingWorker | awaitingWorker | sendingDrain | awaitingDrain | sendingObserver
      | returned => cases agree.2
  | ended =>
      cases stop with
      | returned => exact absurd ⟨alone.drains_eq_nil nofun, .inr rfl⟩ pending
      | before | sendingWorker | awaitingWorker | sendingDrain | awaitingDrain | sendingObserver
      | awaitingObserver => cases agree.2

/-- As long as a call is under way, some step brings it closer to its return. -/
theorem advances_of_pending (alone : Alone state) (consistent : Consistent state)
    (asked : state.Asked) (pending : ¬ state.Calm) : state.Advances := by
  have agree := consistent.agree
  by_cases busy : state.observer ≠ .selecting ∨ state.observations ≠ []
  · exact advances_of_observer alone pending agree busy
  · rw [not_or, not_not, not_not] at busy
    by_cases selecting : state.worker = .selecting
    · exact advances_of_selecting alone pending agree selecting busy.1
    · by_cases ended : state.worker = .ended
      · exact advances_of_ended alone agree ended busy.1
      · exact advances_of_worker alone consistent asked busy.2 ⟨selecting, ended⟩

/-- What is under way does not begin a call of `stop`, or end one as if it had not been made. -/
theorem Case.before_iff (moved : Case state event next) (winding : WindingUp state event) :
    next.stop = .before ↔ state.stop = .before := by
  cases moved with
  | started | stopCalled | drainCalled | checkedIn => cases winding
  | workerBegun | observerBegun | worked | announced | concluded | workerTaken | workerAnswered
  | received | emptied | ticked | observerTaken | observerAnswered => exact Iff.rfl
  | workerStopping _ stopping | workerStopped _ stopping | observerTakenByStop _ stopping
  | observerAnsweredStop _ stopping | observerStopping _ stopping | observerStopped _ stopping =>
      rw [stopping]
      exact ⟨nofun, nofun⟩

theorem alone_of_reachable (reachable : system.Reachable InTurn state) : Alone state := by
  apply reachable.invariant Alone
  · intro state start
    rw [start]
    exact .of_nil rfl rfl ⟨nofun, nofun⟩
  · intro source event target _ alone turn stepped
    exact (step_cases stepped).alone turn alone

/-- Calls that do not overlap never block for good. From wherever such calls may lead, what is
under way can go on, without another call or another job, until every call has returned: the
worker is stopped if that was asked, and running otherwise. -/
theorem calls_return (reachable : system.Reachable InTurn state) :
    ∃ target, system.Leads WindingUp state target ∧ target.drains = [] ∧
      target.stop = if state.stop = .before then .before else .returned := by
  -- The invariant remembers whether the call of `stop` had been made at the outset.
  let Kept (later : State) : Prop :=
    Alone later ∧ Consistent later ∧ later.Asked ∧ (later.stop = .before ↔ state.stop = .before)
  have kept : Kept state := by
    have asked := asked_of_reachable (reachable.mono fun _ _ _ => trivial)
    exact ⟨alone_of_reachable reachable, consistent_of_reachable reachable, asked, Iff.rfl⟩
  have advances : ∀ later, Kept later → ¬ (later.Calm ∧ Kept later) → ∃ event next,
      WindingUp later event ∧ system.step later event = some next ∧ Kept next ∧
        next.distance < later.distance := by
    intro later holds unfinished
    have pending : ¬ later.Calm := fun calm => unfinished ⟨calm, holds⟩
    obtain ⟨alone, consistent, asked, same⟩ := holds
    obtain ⟨event, next, winding, stepped, closer⟩ :=
      advances_of_pending alone consistent asked pending
    have moved := step_cases stepped
    refine ⟨event, next, winding, stepped, ⟨?_, ?_, ?_, ?_⟩, closer⟩
    · exact moved.alone winding.turn alone
    · exact consistent.step moved
    · exact moved.asked asked
    · exact (moved.before_iff winding).trans same
  obtain ⟨target, leads, ⟨none, finished⟩, _, _, _, same⟩ :=
    TransitionSystem.exists_leads State.distance advances kept
  refine ⟨target, leads, none, ?_⟩
  split
  · exact same.mpr ‹_›
  · exact finished.resolve_left fun before => ‹state.stop ≠ .before› (same.mp before)

/-- A worker is drained while it runs a job. -/
theorem calls_return_drain : ∃ state, (system.Reachable InTurn state ∧
    state.drains = [.sendingWorker] ∧ state.stop = .before ∧ state.worker ≠ .selecting) ∧
      ∃ target, system.Leads WindingUp state target ∧ target.drains = [] ∧
        target.stop = .before := by
  let task : Task := { jobName := "export", jobID := "1", arguments := none, marshals := true }
  obtain ⟨state, reachable, one, before, working⟩ : ∃ state, system.Reachable InTurn state ∧
      state.drains = [.sendingWorker] ∧ state.stop = .before ∧ state.worker ≠ .selecting :=
    TransitionSystem.Reachable.exists_of_run
      [.start, .beginWorker, .beginObserver, .timer, .fetched task true, .observeStarted 5,
        .callDrain]
      rfl (by decide +kernel)
  obtain ⟨target, leads, none, stop⟩ := calls_return reachable
  rw [if_pos before] at stop
  exact ⟨state, ⟨reachable, one, before, working⟩, target, leads, none, stop⟩

end InTurn

end Handshake
