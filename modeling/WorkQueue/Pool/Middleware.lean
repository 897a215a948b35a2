import WorkQueue.Foundation.Nesting
import WorkQueue.Payload.Job

/-! # Running a job through its middleware

The middleware of a job and its handler are code of the user: each may do anything to the job,
the context and its surroundings, call what comes next any number of times, recover from a
panic of the call, and return or panic itself. The runner hands the same function to every
middleware as what comes next, and keeps one cursor that only moves forward.

It agrees with the nested composition of the middleware around the handler as long as no
middleware is started twice there (`runJob_eq_nested_iff`).
-/

open Nesting

/-- How a call of user code ends: it returns, with an error or without one, or it panics. -/
inductive CallOutcome (Err Panic : Type) where
  | returned (error : Option Err)
  | panicked (value : Panic)

/-- The error a run reports. A panic is turned into an error. -/
def CallOutcome.error {Err Panic : Type} (errorf : Panic → Err) :
    CallOutcome Err Panic → Option Err
  | .returned error => error
  | .panicked value => some (errorf value)

/-- What user code acts on: the job, the context, and everything else. -/
structure JobWorld (Ctx Env : Type) where
  job : Job
  ctx : Ctx
  env : Env

/-- A middleware, without the context or with it. -/
inductive MiddlewareHandler (Ctx Env Effect Err Panic : Type) where
  | generic (code : Code true (Job × Env) Effect (CallOutcome Err Panic))
  | dynamic (code : Code true (JobWorld Ctx Env) Effect (CallOutcome Err Panic))

/-- The handler of a job type, without the context or with it. It is given nothing to call. -/
inductive JobHandler (Ctx Env Effect Err Panic : Type) where
  | generic (code : Code false (Job × Env) Effect (CallOutcome Err Panic))
  | dynamic (code : Code false (JobWorld Ctx Env) Effect (CallOutcome Err Panic))

variable {Ctx Env Effect Err Panic : Type}

/-- Let code that is not given the context act on the job. -/
def withoutContext {callable : Bool}
    (code : Code callable (Job × Env) Effect (CallOutcome Err Panic)) :
    Code callable (JobWorld Ctx Env) Effect (CallOutcome Err Panic) :=
  code.focus (fun world => (world.job, world.env))
    fun world part => { world with job := part.1, env := part.2 }

/-- The code of a middleware. -/
def MiddlewareHandler.code : MiddlewareHandler Ctx Env Effect Err Panic →
    Code true (JobWorld Ctx Env) Effect (CallOutcome Err Panic)
  | .generic code => withoutContext code
  | .dynamic code => code

/-- The code of a handler. -/
def JobHandler.code : JobHandler Ctx Env Effect Err Panic →
    Code false (JobWorld Ctx Env) Effect (CallOutcome Err Panic)
  | .generic code => withoutContext code
  | .dynamic code => code

/-- What a run shows: the world, the log, and the error once it has returned. -/
structure Observed (Ctx Env Effect Err : Type) where
  world : JobWorld Ctx Env
  log : List (Event Effect)
  returned : Option (Option Err)

namespace Runner

/-- A run of a job: the cursor over the middleware, and what is running on top of the calls
that wait, or how the run has ended. -/
structure State (Ctx Env Effect Err Panic : Type) where
  world : JobWorld Ctx Env
  log : List (Event Effect)
  currentMiddleware : ℕ
  control : Frame (JobWorld Ctx Env) Effect (CallOutcome Err Panic) ×
    List (Suspended (JobWorld Ctx Env) Effect (CallOutcome Err Panic)) ⊕ CallOutcome Err Panic

variable (middleware : List (MiddlewareHandler Ctx Env Effect Err Panic))
  (jt : JobHandler Ctx Env Effect Err Panic)

/-- What comes next at the cursor, and the cursor after that. -/
def next (currentMiddleware : ℕ) :
    ℕ × Frame (JobWorld Ctx Env) Effect (CallOutcome Err Panic) :=
  if inside : currentMiddleware < middleware.length then
    (currentMiddleware + 1,
      .wrapper currentMiddleware middleware[currentMiddleware].code
        middleware[currentMiddleware].code.start)
  else (currentMiddleware, .innermost middleware.length jt.code jt.code.start)

/-- One move of a run. -/
def step (state : State Ctx Env Effect Err Panic) : State Ctx Env Effect Err Panic :=
  match state.control with
  | .inr _ => state
  | .inl (frame, stack) =>
      match frame.move state.world with
      | .act world events frame =>
          { state with
            world := world
            log := state.log ++ events
            control := .inl (frame, stack) }
      | .call suspended =>
          let (cursor, callee) := next middleware jt state.currentMiddleware
          { state with
            log := state.log ++ [.called (some suspended.position) callee.position]
            currentMiddleware := cursor
            control := .inl (callee, suspended :: stack) }
      | .finish outcome =>
          match stack with
          | [] => { state with control := .inr outcome }
          | suspended :: stack =>
              { state with control := .inl (suspended.resumed outcome, stack) }

/-- A run begins with a call of what comes next. The context is created for it. -/
def start (newCtx : Ctx) (job : Job) (env : Env) : State Ctx Env Effect Err Panic :=
  let (cursor, callee) := next middleware jt 0
  { world := { job := job, ctx := newCtx, env := env }
    log := [.called none callee.position]
    currentMiddleware := cursor
    control := .inl (callee, []) }

/-- What a run shows. -/
def State.observed (errorf : Panic → Err) (state : State Ctx Env Effect Err Panic) :
    Observed Ctx Env Effect Err where
  world := state.world
  log := state.log
  returned :=
    match state.control with
    | .inl _ => none
    | .inr outcome => some (outcome.error errorf)

end Runner

section Running

variable (middleware : List (MiddlewareHandler Ctx Env Effect Err Panic))
  (jt : JobHandler Ctx Env Effect Err Panic) (errorf : Panic → Err) (newCtx : Ctx) (job : Job)
  (env : Env)

/-- Run a job for a number of moves. -/
def runJob (moves : ℕ) : Observed Ctx Env Effect Err :=
  ((Runner.step middleware jt)^[moves] (Runner.start middleware jt newCtx job env)).observed errorf

/-- The middleware nested around the handler. -/
def nestedCode : Code false (JobWorld Ctx Env) (Event Effect) (CallOutcome Err Panic) :=
  .nest jt.code 0 (middleware.map MiddlewareHandler.code)

/-- The nested composition begins with its outermost code. -/
def nestedStart : (nestedCode middleware jt).Run where
  state := { job := job, ctx := newCtx, env := env }
  log := [.called none 0]
  control := .inl (nestedCode middleware jt).start

/-- Run the nested composition for a number of moves. -/
def runNested (moves : ℕ) : Observed Ctx Env Effect Err :=
  let run := Code.Run.step^[moves] (nestedStart middleware jt newCtx job env)
  { world := run.state
    log := run.log
    returned :=
      match run.control with
      | .inl _ => none
      | .inr outcome => some (outcome.error errorf) }

end Running

namespace Runner

variable {middleware : List (MiddlewareHandler Ctx Env Effect Err Panic)}
  {jt : JobHandler Ctx Env Effect Err Panic}

/-- How often the code at a position is started. -/
def starts (log : List (Event Effect)) (position : ℕ) : ℕ :=
  log.countP fun
    | .effect _ _ => false
    | .called _ callee => callee = position

/-- No middleware is started twice. -/
def StartedOnce (middleware : ℕ) (log : List (Event Effect)) : Prop :=
  ∀ position < middleware, starts log position ≤ 1

theorem starts_append (log events : List (Event Effect)) (position : ℕ) :
    starts (log ++ events) position = starts log position + starts events position :=
  List.countP_append

theorem starts_called (caller : Option ℕ) (callee position : ℕ) :
    starts ([.called caller callee] : List (Event Effect)) position =
      if callee = position then 1 else 0 := by
  unfold starts
  split
  · next same => simp [same]
  · next other => simp [other]

theorem starts_effects (effects : List Effect) (source position : ℕ) :
    starts (effects.map (Event.effect source)) position = 0 := by
  unfold starts
  rw [List.countP_eq_zero]
  intro event member
  obtain ⟨effect, -, rfl⟩ := List.mem_map.mp member
  exact Bool.false_ne_true

/-- A running middleware is before the cursor. -/
def Below (cursor : ℕ) : Frame (JobWorld Ctx Env) Effect (CallOutcome Err Panic) → Prop
  | .wrapper position _ _ => position < cursor
  | .innermost _ _ _ => True

section Moves

variable {frame after : Frame (JobWorld Ctx Env) Effect (CallOutcome Err Panic)}
  {world changed : JobWorld Ctx Env} {events : List (Event Effect)}
  {suspended : Suspended (JobWorld Ctx Env) Effect (CallOutcome Err Panic)} {cursor : ℕ}

/-- Acting starts no code. -/
theorem starts_act (acted : frame.move world = .act changed events after) (position : ℕ) :
    starts events position = 0 := by
  obtain ⟨own, code, point, effects, next, -, -, rfl, -⟩ |
    ⟨own, code, point, effects, next, -, -, rfl, -⟩ := Frame.cases_of_act acted
  · exact starts_effects effects own position
  · exact starts_effects effects own position

theorem below_act (acted : frame.move world = .act changed events after)
    (below : Below cursor frame) : Below cursor after := by
  obtain ⟨own, code, point, effects, next, rfl, -, -, rfl⟩ |
    ⟨own, code, point, effects, next, rfl, -, -, rfl⟩ := Frame.cases_of_act acted
  · exact below
  · trivial

/-- Only middleware calls what comes next. -/
theorem below_call (called : frame.move world = .call suspended) (below : Below cursor frame) :
    suspended.position < cursor := by
  obtain ⟨point, rfl, -⟩ := Frame.exists_of_call called
  exact below

end Moves

section Next

variable (middleware jt)

/-- What comes next is the middleware at the cursor or the handler after all of them. -/
theorem next_cases (cursor : ℕ) :
    (next middleware jt cursor).2 =
        entry jt.code 0 (middleware.map MiddlewareHandler.code) cursor ∧
      (cursor < middleware.length ∧ (next middleware jt cursor).1 = cursor + 1 ∧
          (next middleware jt cursor).2.position = cursor ∨
        middleware.length ≤ cursor ∧ (next middleware jt cursor).1 = cursor ∧
          (next middleware jt cursor).2.position = middleware.length) := by
  unfold next
  by_cases inside : cursor < middleware.length
  · have found : (middleware.map MiddlewareHandler.code)[cursor]? =
        some middleware[cursor].code := by simp [inside]
    rw [dif_pos inside, entry, found, Nat.zero_add]
    exact ⟨rfl, .inl ⟨inside, rfl, rfl⟩⟩
  · have missing : (middleware.map MiddlewareHandler.code)[cursor]? = none := by
      simpa using Nat.le_of_not_lt inside
    rw [dif_neg inside, entry, missing]
    refine ⟨?_, .inr ⟨Nat.le_of_not_lt inside, rfl, rfl⟩⟩
    simp only [Nat.zero_add, List.length_map]

/-- What comes next at a cursor within the middleware or right after it is at the cursor. -/
theorem position_next {cursor : ℕ} (bounded : cursor ≤ middleware.length) :
    (next middleware jt cursor).2.position = cursor := by
  obtain ⟨-, ⟨-, -, located⟩ | ⟨outside, -, located⟩⟩ := next_cases middleware jt cursor
  · exact located
  · exact located.trans (Nat.le_antisymm outside bounded)

theorem below_next (cursor : ℕ) :
    Below (next middleware jt cursor).1 (next middleware jt cursor).2 := by
  unfold next
  split
  · exact Nat.lt_succ_self cursor
  · trivial

theorem le_next (cursor : ℕ) : cursor ≤ (next middleware jt cursor).1 := by
  unfold next
  split
  · exact Nat.le_succ cursor
  · exact Nat.le_refl cursor

/-- Starting what comes next moves the cursor over it. -/
theorem starts_next {log : List (Event Effect)} {cursor : ℕ}
    (started : ∀ position < middleware.length,
      starts log position = if position < cursor then 1 else 0)
    (bounded : cursor ≤ middleware.length) (caller : Option ℕ) :
    (next middleware jt cursor).1 ≤ middleware.length ∧
      ∀ position < middleware.length,
        starts (log ++ [.called caller (next middleware jt cursor).2.position]) position =
          if position < (next middleware jt cursor).1 then 1 else 0 := by
  obtain ⟨-, ⟨inside, moved, located⟩ | ⟨outside, moved, located⟩⟩ :=
    next_cases middleware jt cursor
  · rw [moved, located]
    refine ⟨inside, fun position bound => ?_⟩
    rw [starts_append, starts_called, started position bound]
    grind
  · rw [moved, located]
    refine ⟨bounded, fun position bound => ?_⟩
    rw [starts_append, starts_called, started position bound, if_neg bound.ne']
    rfl

end Next

/-- The middleware before the cursor has been started once, and no other. -/
structure Ordered (middleware : List (MiddlewareHandler Ctx Env Effect Err Panic))
    (state : State Ctx Env Effect Err Panic) : Prop where
  bounded : state.currentMiddleware ≤ middleware.length
  started : ∀ position < middleware.length,
    starts state.log position = if position < state.currentMiddleware then 1 else 0
  frames : ∀ frame stack, state.control = .inl (frame, stack) →
    Below state.currentMiddleware frame ∧
      ∀ suspended ∈ stack, suspended.position < state.currentMiddleware

theorem ordered_start (newCtx : Ctx) (job : Job) (env : Env) :
    Ordered middleware (start middleware jt newCtx job env) := by
  obtain ⟨bounded, started⟩ := starts_next middleware jt
    (show ∀ position < middleware.length, starts ([] : List (Event Effect)) position =
      if position < 0 then 1 else 0 from fun _ _ => rfl) (Nat.zero_le _) none
  refine ⟨bounded, started, ?_⟩
  intro frame stack running
  cases running
  exact ⟨below_next middleware jt 0, nofun⟩

theorem Ordered.step {state : State Ctx Env Effect Err Panic} (ordered : Ordered middleware state) :
    Ordered middleware (Runner.step middleware jt state) := by
  unfold Runner.step
  cases control : state.control with
  | inr outcome => exact ordered
  | inl running =>
      obtain ⟨frame, stack⟩ := running
      obtain ⟨below, waiting⟩ := ordered.frames frame stack control
      cases moved : frame.move state.world with
      | act world events after =>
          simp only [moved]
          refine ⟨ordered.bounded, fun position bound => ?_, ?_⟩
          · rw [starts_append, starts_act moved, Nat.add_zero]
            exact ordered.started position bound
          · intro frame stack running
            cases running
            exact ⟨below_act moved below, waiting⟩
      | call suspended =>
          simp only [moved]
          obtain ⟨bounded, started⟩ := starts_next middleware jt ordered.started
            ordered.bounded (some suspended.position)
          refine ⟨bounded, started, ?_⟩
          intro frame stack running
          cases running
          have further := le_next middleware jt state.currentMiddleware
          refine ⟨below_next middleware jt _, ?_⟩
          intro other member
          obtain rfl | member := List.mem_cons.mp member
          · exact (below_call moved below).trans_le further
          · exact (waiting other member).trans_le further
      | finish outcome =>
          simp only [moved]
          cases stack with
          | nil => exact ⟨ordered.bounded, ordered.started, nofun⟩
          | cons suspended stack =>
              obtain ⟨own, others⟩ := List.forall_mem_cons.mp waiting
              refine ⟨ordered.bounded, ordered.started, ?_⟩
              intro frame stack running
              cases running
              exact ⟨own, others⟩

/-- A run is at the same point as a run of the nested composition. -/
structure Agrees (middleware : List (MiddlewareHandler Ctx Env Effect Err Panic))
    (jt : JobHandler Ctx Env Effect Err Panic) (state : State Ctx Env Effect Err Panic)
    (run : (nestedCode middleware jt).Run) : Prop where
  world : run.state = state.world
  log : run.log = state.log
  control :
    match state.control, run.control with
    | .inl (frame, stack), .inl point =>
        AtPoint jt.code 0 (middleware.map MiddlewareHandler.code) stack frame point
    | .inr outcome, .inr nested => outcome = nested
    | _, _ => False

/-- Two runs that agree are both running or have the same outcome. -/
theorem Agrees.cases {state : State Ctx Env Effect Err Panic}
    {run : (nestedCode middleware jt).Run} (agrees : Agrees middleware jt state run) :
    (∃ frame stack point, state.control = .inl (frame, stack) ∧ run.control = .inl point ∧
        AtPoint jt.code 0 (middleware.map MiddlewareHandler.code) stack frame point) ∨
      ∃ outcome, state.control = .inr outcome ∧ run.control = .inr outcome := by
  have represented := agrees.control
  cases control : state.control with
  | inl running =>
      cases nested : run.control with
      | inl point =>
          rw [control, nested] at represented
          exact .inl ⟨_, _, point, rfl, rfl, represented⟩
      | inr outcome => rw [control, nested] at represented; exact represented.elim
  | inr outcome =>
      cases nested : run.control with
      | inl point => rw [control, nested] at represented; exact represented.elim
      | inr other =>
          rw [control, nested] at represented
          exact .inr ⟨other, congrArg _ represented, rfl⟩

theorem agrees_start (newCtx : Ctx) (job : Job) (env : Env) :
    Agrees middleware jt (start middleware jt newCtx job env)
      (nestedStart middleware jt newCtx job env) := by
  refine ⟨rfl, ?_, ?_⟩
  · simp only [nestedStart, start, position_next middleware jt (Nat.zero_le _)]
  · simp only [start, (next_cases middleware jt 0).1]
    exact AtPoint.start 0 _

/-- If starting the code after a running middleware starts no middleware twice, then that code
is at the cursor. -/
theorem Ordered.cursor_eq {state : State Ctx Env Effect Err Panic}
    (ordered : Ordered middleware state) {caller : ℕ} (below : caller < state.currentMiddleware)
    (once : StartedOnce middleware.length
      (state.log ++ [.called (some caller) (caller + 1)])) :
    state.currentMiddleware = caller + 1 := by
  by_contra elsewhere
  have bounded := ordered.bounded
  have inside : caller + 1 < middleware.length := by omega
  have twice := once (caller + 1) inside
  rw [starts_append, starts_called, if_pos rfl, ordered.started _ inside,
    if_pos (by omega)] at twice
  omega

/-- A call finds the cursor right after the caller. -/
def InStep (state : State Ctx Env Effect Err Panic) : Prop :=
  ∀ frame stack suspended, state.control = .inl (frame, stack) →
    frame.move state.world = .call suspended →
      state.currentMiddleware = suspended.position + 1

/-- A move of a run whose calls are in step is a move of the nested composition. -/
theorem Agrees.step {state : State Ctx Env Effect Err Panic}
    {run : (nestedCode middleware jt).Run} (agrees : Agrees middleware jt state run)
    (ordered : Ordered middleware state) (inStep : InStep state) :
    Agrees middleware jt (Runner.step middleware jt state) run.step := by
  have world := agrees.world
  have log := agrees.log
  unfold Runner.step Code.Run.step
  obtain ⟨frame, stack, point, control, nested, represented⟩ | ⟨outcome, control, nested⟩ :=
    agrees.cases
  · have moves := AtPoint.move represented state.world
    simp only [control, nested]
    cases moved : frame.move state.world with
    | act changed events after =>
        rw [moved] at moves
        obtain ⟨next, acted, kept⟩ := moves
        have acted : (nestedCode middleware jt).move point run.state = _ := world ▸ acted
        simp only [acted]
        exact ⟨rfl, by rw [log], kept⟩
    | call suspended =>
        rw [moved] at moves
        obtain ⟨index, next, located, -, acted, entered⟩ := moves
        have acted : (nestedCode middleware jt).move point run.state = _ := world ▸ acted
        have cursor := inStep frame stack suspended control moved
        have callee := (next_cases middleware jt (index + 1)).1
        simp only [acted]
        refine ⟨world, ?_, ?_⟩
        · rw [log, position_next middleware jt ordered.bounded, cursor]
        · simp only [cursor, located, Nat.zero_add, callee]
          exact entered
    | finish outcome =>
        rw [moved] at moves
        cases stack with
        | nil =>
            have finished : (nestedCode middleware jt).move point run.state = _ := world ▸ moves
            simp only [finished]
            exact ⟨world, log, rfl⟩
        | cons suspended stack =>
            obtain ⟨next, acted, resumed⟩ := moves
            have acted : (nestedCode middleware jt).move point run.state = _ := world ▸ acted
            simp only [acted]
            exact ⟨world, by rw [List.append_nil, log], resumed⟩
  · simp only [control, nested]
    exact agrees

/-- If the nested composition starts no middleware twice, then a call is in step. -/
theorem Agrees.inStep {state : State Ctx Env Effect Err Panic}
    {run : (nestedCode middleware jt).Run} (agrees : Agrees middleware jt state run)
    (ordered : Ordered middleware state) (once : StartedOnce middleware.length run.step.log) :
    InStep state := by
  intro frame stack suspended control moved
  unfold Code.Run.step at once
  obtain ⟨_, _, point, running, nested, represented⟩ | ⟨outcome, finished, -⟩ := agrees.cases
  · cases running.symm.trans control
    have moves := AtPoint.move represented state.world
    rw [moved] at moves
    obtain ⟨index, next, -, -, acted, -⟩ := moves
    have acted : (nestedCode middleware jt).move point run.state = _ := agrees.world ▸ acted
    simp only [nested, acted, agrees.log] at once
    exact ordered.cursor_eq (below_call moved (ordered.frames frame stack control).1) once
  · cases finished.symm.trans control

theorem startedOnce_of_step {run : (nestedCode middleware jt).Run}
    (once : StartedOnce middleware.length run.step.log) :
    StartedOnce middleware.length run.log := by
  obtain ⟨events, extended, -⟩ := run.log_step
  intro position inside
  have bound := once position inside
  rw [extended, starts_append] at bound
  omega

variable (middleware jt) in
theorem ordered_iterate (newCtx : Ctx) (job : Job) (env : Env) (moves : ℕ) :
    Ordered middleware ((step middleware jt)^[moves] (start middleware jt newCtx job env)) := by
  induction moves with
  | zero => exact ordered_start newCtx job env
  | succ moves ih => rw [Function.iterate_succ_apply']; exact ih.step

variable (middleware jt) in
/-- A run agrees with the nested composition as long as that starts no middleware twice. -/
theorem agrees_iterate (newCtx : Ctx) (job : Job) (env : Env) {moves : ℕ}
    (once : StartedOnce middleware.length
      (Code.Run.step^[moves] (nestedStart middleware jt newCtx job env)).log) :
    Agrees middleware jt ((step middleware jt)^[moves] (start middleware jt newCtx job env))
      (Code.Run.step^[moves] (nestedStart middleware jt newCtx job env)) := by
  induction moves with
  | zero => exact agrees_start newCtx job env
  | succ moves ih =>
      rw [Function.iterate_succ_apply'] at once ⊢
      rw [Function.iterate_succ_apply']
      have ordered := ordered_iterate middleware jt newCtx job env moves
      have agrees := ih (startedOnce_of_step once)
      exact agrees.step ordered (agrees.inStep ordered once)

/-- A running middleware other than the last has not called yet, and the cursor is right after
it, or it will not call any more. -/
def Sparing (middleware cursor : ℕ) :
    Frame (JobWorld Ctx Env) Effect (CallOutcome Err Panic) → Prop
  | .wrapper position code point =>
      position + 1 < middleware → cursor = position + 1 ∧ code.Once point ∨ code.Quiet point
  | .innermost _ _ _ => True

/-- Every middleware other than the last calls at most once. -/
structure Restrained (middleware : List (MiddlewareHandler Ctx Env Effect Err Panic))
    (state : State Ctx Env Effect Err Panic) : Prop where
  running : ∀ frame stack, state.control = .inl (frame, stack) →
    Sparing middleware.length state.currentMiddleware frame
  waiting : ∀ frame stack, state.control = .inl (frame, stack) →
    ∀ suspended ∈ stack, suspended.position + 1 < middleware.length →
      ∀ outcome, suspended.code.Quiet (suspended.resume outcome)

section Restraint

variable {frame after : Frame (JobWorld Ctx Env) Effect (CallOutcome Err Panic)}
  {world changed : JobWorld Ctx Env} {events : List (Event Effect)}
  {suspended : Suspended (JobWorld Ctx Env) Effect (CallOutcome Err Panic)} {count cursor : ℕ}

theorem sparing_act (acted : frame.move world = .act changed events after)
    (sparing : Sparing count cursor frame) : Sparing count cursor after := by
  obtain ⟨own, code, point, effects, next, rfl, moved, -, rfl⟩ |
    ⟨own, code, point, effects, next, rfl, -, -, rfl⟩ := Frame.cases_of_act acted
  · intro inside
    obtain ⟨here, once⟩ | quiet := sparing inside
    · exact .inl ⟨here, once.act moved⟩
    · exact .inr (quiet.act moved)
  · trivial

/-- A call of a middleware other than the last is its only one, and the cursor is right after
it. -/
theorem sparing_call (called : frame.move world = .call suspended)
    (sparing : Sparing count cursor frame) (inside : suspended.position + 1 < count) :
    cursor = suspended.position + 1 ∧
      ∀ outcome, suspended.code.Quiet (suspended.resume outcome) := by
  obtain ⟨point, rfl, moved⟩ := Frame.exists_of_call called
  obtain ⟨here, once⟩ | quiet := sparing inside
  · exact ⟨here, once.quiet moved⟩
  · exact (quiet.not_next moved).elim

variable (jt) in
/-- What comes next has made no call yet. -/
theorem sparing_next (once : ∀ handler ∈ middleware.dropLast, handler.code.Once handler.code.start)
    (cursor : ℕ) :
    Sparing middleware.length (next middleware jt cursor).1 (next middleware jt cursor).2 := by
  unfold next
  by_cases bound : cursor < middleware.length
  · rw [dif_pos bound]
    intro inside
    have short : cursor < middleware.dropLast.length := by
      rw [List.length_dropLast]
      omega
    have member := List.getElem_mem short
    rw [List.getElem_dropLast] at member
    exact .inl ⟨rfl, once _ member⟩
  · rw [dif_neg bound]
    trivial

end Restraint

variable {state : State Ctx Env Effect Err Panic}

theorem Restrained.inStep (restrained : Restrained middleware state)
    (ordered : Ordered middleware state) : InStep state := by
  intro frame stack suspended control called
  have below := below_call called (ordered.frames frame stack control).1
  have bounded := ordered.bounded
  by_cases inside : suspended.position + 1 < middleware.length
  · exact (sparing_call called (restrained.running frame stack control) inside).1
  · omega

variable (jt) in
theorem restrained_start
    (once : ∀ handler ∈ middleware.dropLast, handler.code.Once handler.code.start) (newCtx : Ctx)
    (job : Job) (env : Env) : Restrained middleware (start middleware jt newCtx job env) := by
  constructor
  · intro frame stack running
    cases running
    exact sparing_next jt once 0
  · intro frame stack running suspended member
    cases running
    cases member

theorem Restrained.step (restrained : Restrained middleware state)
    (once : ∀ handler ∈ middleware.dropLast, handler.code.Once handler.code.start) :
    Restrained middleware (Runner.step middleware jt state) := by
  unfold Runner.step
  cases control : state.control with
  | inr outcome => exact restrained
  | inl running =>
      obtain ⟨frame, stack⟩ := running
      have sparing := restrained.running frame stack control
      have waiting := restrained.waiting frame stack control
      simp only
      cases moved : frame.move state.world with
      | act world events after =>
          constructor
          · intro frame stack running
            cases running
            exact sparing_act moved sparing
          · intro frame stack running
            cases running
            exact waiting
      | call suspended =>
          constructor
          · intro frame stack running
            cases running
            exact sparing_next jt once _
          · intro frame stack running other member inside
            cases running
            obtain rfl | member := List.mem_cons.mp member
            · exact (sparing_call moved sparing inside).2
            · exact waiting other member inside
      | finish outcome =>
          cases stack with
          | nil => exact ⟨nofun, nofun⟩
          | cons suspended stack =>
              obtain ⟨own, others⟩ := List.forall_mem_cons.mp waiting
              constructor
              · intro frame stack running
                cases running
                exact fun inside => .inr (own inside outcome)
              · intro frame stack running
                cases running
                exact others

variable (jt) in
/-- A run agrees with the nested composition if every middleware other than the last calls at
most once. -/
theorem agrees_of_once
    (once : ∀ handler ∈ middleware.dropLast, handler.code.Once handler.code.start) (newCtx : Ctx)
    (job : Job) (env : Env) (moves : ℕ) :
    Agrees middleware jt ((step middleware jt)^[moves] (start middleware jt newCtx job env))
      (Code.Run.step^[moves] (nestedStart middleware jt newCtx job env)) := by
  suffices both : Agrees middleware jt
        ((step middleware jt)^[moves] (start middleware jt newCtx job env))
        (Code.Run.step^[moves] (nestedStart middleware jt newCtx job env)) ∧
      Restrained middleware ((step middleware jt)^[moves] (start middleware jt newCtx job env)) from
    both.1
  induction moves with
  | zero => exact ⟨agrees_start newCtx job env, restrained_start jt once newCtx job env⟩
  | succ moves ih =>
      obtain ⟨agrees, restrained⟩ := ih
      have ordered := ordered_iterate middleware jt newCtx job env moves
      simp only [Function.iterate_succ_apply']
      exact ⟨agrees.step ordered (restrained.inStep ordered), restrained.step once⟩

/-- Runs that agree show the same. -/
theorem Agrees.observed {state : State Ctx Env Effect Err Panic}
    {run : (nestedCode middleware jt).Run} (agrees : Agrees middleware jt state run)
    (errorf : Panic → Err) :
    state.observed errorf =
      { world := run.state
        log := run.log
        returned :=
          match run.control with
          | .inl _ => none
          | .inr outcome => some (outcome.error errorf) } := by
  rw [State.observed, agrees.world, agrees.log]
  obtain ⟨frame, stack, point, control, nested, -⟩ | ⟨outcome, control, nested⟩ := agrees.cases
  · rw [control, nested]
  · rw [control, nested]

end Runner

section Composition

variable (middleware : List (MiddlewareHandler Ctx Env Effect Err Panic))
  (jt : JobHandler Ctx Env Effect Err Panic) (errorf : Panic → Err) (newCtx : Ctx) (job : Job)
  (env : Env) (moves : ℕ)

/-- A run starts no middleware twice. -/
theorem startedOnce_runJob :
    Runner.StartedOnce middleware.length
      (runJob middleware jt errorf newCtx job env moves).log := by
  intro position inside
  have ordered := Runner.ordered_iterate middleware jt newCtx job env moves
  exact (ordered.started position inside).trans_le (by split <;> omega)

/-- Every call in a run of the nested composition runs the code after the caller. -/
theorem called_runNested {caller : Option ℕ} {callee : ℕ}
    (call : .called caller callee ∈ (runNested middleware jt errorf newCtx job env moves).log) :
    callee = caller.elim 0 (· + 1) := by
  unfold runNested at call
  induction moves with
  | zero =>
      cases List.mem_singleton.mp call
      rfl
  | succ moves ih =>
      simp only [Function.iterate_succ_apply'] at call
      obtain ⟨events, extended, origin⟩ :=
        (Code.Run.step^[moves] (nestedStart middleware jt newCtx job env)).log_step
      rw [extended] at call
      obtain before | now := List.mem_append.mp call
      · exact ih before
      · obtain rfl | ⟨point, state, after, next, acted⟩ := origin
        · cases now
        · obtain ⟨outer, rfl, rfl⟩ := Code.chained_nest _ _ _ _ _ _ _ _ acted _ _ now
          rfl

/-- A run shows the same as the nested composition of the middleware around the handler if and
only if that composition starts no middleware twice, in which every call runs the code after
the caller. It does if no middleware other than the last can call twice. -/
theorem runJob_eq_nested_iff :
    (runJob middleware jt errorf newCtx job env moves =
        runNested middleware jt errorf newCtx job env moves ↔
      Runner.StartedOnce middleware.length
        (runNested middleware jt errorf newCtx job env moves).log) ∧
    ((∀ handler ∈ middleware.dropLast, handler.code.Once handler.code.start) →
      runJob middleware jt errorf newCtx job env moves =
        runNested middleware jt errorf newCtx job env moves) ∧
    ∀ caller callee,
      .called caller callee ∈ (runNested middleware jt errorf newCtx job env moves).log →
        callee = caller.elim 0 (· + 1) := by
  refine ⟨⟨fun same => ?_, fun once => ?_⟩, fun once => ?_, fun caller callee => ?_⟩
  · rw [← same]
    exact startedOnce_runJob middleware jt errorf newCtx job env moves
  · exact (Runner.agrees_iterate middleware jt newCtx job env once).observed errorf
  · exact (Runner.agrees_of_once jt once newCtx job env moves).observed errorf
  · exact called_runNested middleware jt errorf newCtx job env moves

end Composition

section Retrying

/-- A middleware that calls again if the first call returns an error. -/
def retrying : MiddlewareHandler Unit Unit String String String :=
  .generic {
    Point := CallOutcome String String ⊕ Bool
    start := .inr false
    move := fun
      | .inr false, _ => .next rfl fun
          | .returned (some _) => .inr true
          | outcome => .inl outcome
      | .inr true, _ => .next rfl .inl
      | .inl outcome, _ => .finish outcome }

/-- A middleware that counts its calls. -/
def counting : MiddlewareHandler Unit Unit String String String :=
  .dynamic {
    Point := CallOutcome String String ⊕ Bool
    start := .inr false
    move := fun
      | .inr false, world => .act world ["count"] (.inr true)
      | .inr true, _ => .next rfl .inl
      | .inl outcome, _ => .finish outcome }

/-- A handler that fails. -/
def failing : JobHandler Unit Unit String String String :=
  .generic {
    Point := Bool
    start := false
    move := fun
      | false, part => .act part ["send"] true
      | true, _ => .finish (.returned (some "timeout")) }

/-- The second call of a middleware that retries skips the middleware after it and runs the
handler. Nested, it runs the middleware again. -/
theorem runJob_skips_middleware :
    (runJob [retrying, counting] failing id () {} () 16).log =
        [.called none 0, .called (some 0) 1, .effect 1 "count", .called (some 1) 2,
          .effect 2 "send", .called (some 0) 2, .effect 2 "send"] ∧
      (runJob [retrying, counting] failing id () {} () 16).returned = some (some "timeout") ∧
      (runNested [retrying, counting] failing id () {} () 16).log =
        [.called none 0, .called (some 0) 1, .effect 1 "count", .called (some 1) 2,
          .effect 2 "send", .called (some 0) 1, .effect 1 "count", .called (some 1) 2,
          .effect 2 "send"] ∧
      (runNested [retrying, counting] failing id () {} () 16).returned = some (some "timeout") :=
  ⟨rfl, rfl, rfl, rfl⟩

theorem counting_once : counting.code.Once counting.code.start := by
  let fresh : CallOutcome String String ⊕ Bool → Prop := fun point => point.isRight
  refine ⟨fresh, rfl, ?_⟩
  intro point world unspent
  cases point with
  | inl outcome => cases unspent
  | inr counted =>
      cases counted with
      | false => rfl
      | true =>
          intro outcome
          let quiet : CallOutcome String String ⊕ Bool → Prop := fun point => point.isLeft
          refine ⟨quiet, rfl, ?_⟩
          intro point world spent
          cases point with
          | inl outcome => trivial
          | inr counted => cases spent

/-- Retrying is fine in the last middleware. -/
theorem runJob_retries_last :
    runJob [counting, retrying] failing id () {} () 16 =
        runNested [counting, retrying] failing id () {} () 16 ∧
      (runJob [counting, retrying] failing id () {} () 16).log =
        [.called none 0, .effect 0 "count", .called (some 0) 1, .called (some 1) 2,
          .effect 2 "send", .called (some 1) 2, .effect 2 "send"] := by
  refine ⟨(runJob_eq_nested_iff [counting, retrying] failing id () {} () 16).2.1 ?_, rfl⟩
  intro handler member
  cases List.mem_singleton.mp member
  exact counting_once

end Retrying
