import Mathlib.Data.List.Basic

/-! # Nested code

Code runs in small moves over a state. Besides acting and finishing, code may call what it is
wrapped around, any number of times, and goes on with the outcome of the call. A list of codes
around a closed one composes by nesting: every code calls the next one of the list
(`Code.nest`). The log of a run tells the effects with the position of the code that causes
them, and who calls whom.
-/

namespace Nesting

/-- What code does next: act on the state, call what it wraps, or finish. -/
inductive Move (callable : Bool) (State Point Effect Outcome : Type) where
  | act (state : State) (effects : List Effect) (point : Point)
  | next (may : callable = true) (resume : Outcome → Point)
  | finish (outcome : Outcome)

/-- Code with its control points. Code that is not callable wraps nothing. -/
structure Code (callable : Bool) (State Effect Outcome : Type) where
  Point : Type
  start : Point
  move : Point → State → Move callable State Point Effect Outcome

/-- An effect of the code at a position, or a call. The first code is called from outside. -/
inductive Event (Effect : Type) where
  | effect (position : ℕ) (effect : Effect)
  | called (caller : Option ℕ) (callee : ℕ)
  deriving DecidableEq

namespace Code

variable {State Effect Outcome : Type}

/-- Let code act on a part of the state. -/
def focus {callable : Bool} {Part : Type} (part : State → Part) (put : State → Part → State)
    (code : Code callable Part Effect Outcome) : Code callable State Effect Outcome where
  Point := code.Point
  start := code.start
  move point state :=
    match code.move point (part state) with
    | .act next effects point => .act (put state next) effects point
    | .next may resume => .next may resume
    | .finish outcome => .finish outcome

/-- Log the effects of closed code at a position. -/
def placed (position : ℕ) (code : Code false State Effect Outcome) :
    Code false State (Event Effect) Outcome where
  Point := code.Point
  start := code.start
  move point state :=
    match code.move point state with
    | .act next effects point => .act next (effects.map (.effect position)) point
    | .finish outcome => .finish outcome

/-- Wrap closed code. While a call runs, what to do with its outcome is kept. -/
def wrap (position : ℕ) (outer : Code true State Effect Outcome)
    (inner : Code false State (Event Effect) Outcome) :
    Code false State (Event Effect) Outcome where
  Point := outer.Point ⊕ inner.Point × (Outcome → outer.Point)
  start := .inl outer.start
  move
    | .inl point, state =>
        match outer.move point state with
        | .act next effects point => .act next (effects.map (.effect position)) (.inl point)
        | .next _ resume =>
            .act state [.called (some position) (position + 1)] (.inr (inner.start, resume))
        | .finish outcome => .finish outcome
    | .inr (point, resume), state =>
        match inner.move point state with
        | .act next events point => .act next events (.inr (point, resume))
        | .finish outcome => .act state [] (.inl (resume outcome))

/-- Nest a list of codes around a closed one. -/
def nest (innermost : Code false State Effect Outcome) :
    ℕ → List (Code true State Effect Outcome) → Code false State (Event Effect) Outcome
  | position, [] => innermost.placed position
  | position, outer :: codes => outer.wrap position (nest innermost (position + 1) codes)

/-- A run of closed code: the state, the log, and the control point or the outcome. -/
structure Run (code : Code false State Effect Outcome) where
  state : State
  log : List Effect
  control : code.Point ⊕ Outcome

variable {code : Code false State Effect Outcome}

/-- One move of a run. A run that is finished stays as it is. -/
def Run.step (run : code.Run) : code.Run :=
  match run.control with
  | .inr _ => run
  | .inl point =>
      match code.move point run.state with
      | .act state effects point =>
          { state := state, log := run.log ++ effects, control := .inl point }
      | .finish outcome => { run with control := .inr outcome }

/-- A move adds its effects to the log, if it has any. -/
theorem Run.log_step (run : code.Run) :
    ∃ effects, run.step.log = run.log ++ effects ∧
      (effects = [] ∨
        ∃ point state after next, code.move point state = .act after effects next) := by
  unfold Run.step
  cases run.control with
  | inr outcome => exact ⟨[], (List.append_nil _).symm, .inl rfl⟩
  | inl point =>
      simp only
      cases moved : code.move point run.state with
      | act state effects next => exact ⟨effects, rfl, .inr ⟨point, run.state, state, next, moved⟩⟩
      | next may resume => cases may
      | finish outcome => exact ⟨[], (List.append_nil _).symm, .inl rfl⟩

section Calls

/-- Every call that is logged goes to the next position. -/
def CallsNext (events : List (Event Effect)) : Prop :=
  ∀ caller callee, .called caller callee ∈ events →
    ∃ outer, caller = some outer ∧ callee = outer + 1

theorem callsNext_nil : CallsNext ([] : List (Event Effect)) := nofun

theorem callsNext_effects (position : ℕ) (effects : List Effect) :
    CallsNext (effects.map (Event.effect position)) := by
  intro caller callee member
  obtain ⟨effect, -, absurd⟩ := List.mem_map.mp member
  cases absurd

/-- Closed code all of whose calls go to the next position. -/
def Chained (code : Code false State (Event Effect) Outcome) : Prop :=
  ∀ point state after events next, code.move point state = .act after events next →
    CallsNext events

theorem chained_placed (position : ℕ) (code : Code false State Effect Outcome) :
    (code.placed position).Chained := by
  intro point state after events next acted
  simp only [placed] at acted
  split at acted
  · cases acted
    exact callsNext_effects position _
  · cases acted

theorem Chained.wrap {inner : Code false State (Event Effect) Outcome} (inside : inner.Chained)
    (position : ℕ) (outer : Code true State Effect Outcome) :
    (outer.wrap position inner).Chained := by
  intro point state after events next acted
  cases point with
  | inl point =>
      simp only [Code.wrap] at acted
      split at acted
      · cases acted
        exact callsNext_effects position _
      · cases acted
        intro caller callee member
        cases List.mem_singleton.mp member
        exact ⟨position, rfl, rfl⟩
      · cases acted
  | inr suspended =>
      simp only [Code.wrap] at acted
      split at acted
      · next moved =>
          cases acted
          exact inside _ _ _ _ _ moved
      · cases acted
        exact callsNext_nil

/-- Every call of nested code goes to the next position. -/
theorem chained_nest (innermost : Code false State Effect Outcome) (position : ℕ)
    (codes : List (Code true State Effect Outcome)) : (nest innermost position codes).Chained := by
  induction codes generalizing position with
  | nil => exact chained_placed position innermost
  | cons outer codes ih => exact (ih (position + 1)).wrap position outer

end Calls

section Sparing

variable (code : Code true State Effect Outcome)

/-- Code that calls nothing from a control point on. -/
def Quiet (point : code.Point) : Prop :=
  ∃ quiet : code.Point → Prop, quiet point ∧ ∀ point state, quiet point →
    match code.move point state with
    | .act _ _ next => quiet next
    | .next _ _ => False
    | .finish _ => True

/-- Code that makes at most one call from a control point on. -/
def Once (point : code.Point) : Prop :=
  ∃ fresh : code.Point → Prop, fresh point ∧ ∀ point state, fresh point →
    match code.move point state with
    | .act _ _ next => fresh next
    | .next _ resume => ∀ outcome, code.Quiet (resume outcome)
    | .finish _ => True

variable {code} {point next : code.Point} {state after : State} {effects : List Effect}
  {resume : Outcome → code.Point} {may : true = true}

theorem Quiet.act (silent : code.Quiet point)
    (acted : code.move point state = .act after effects next) : code.Quiet next := by
  obtain ⟨quiet, here, kept⟩ := silent
  have later := kept point state here
  rw [acted] at later
  exact ⟨quiet, later, kept⟩

theorem Quiet.not_next (silent : code.Quiet point) : code.move point state ≠ .next may resume := by
  intro called
  obtain ⟨quiet, here, kept⟩ := silent
  have later := kept point state here
  rw [called] at later
  exact later

theorem Once.act (once : code.Once point)
    (acted : code.move point state = .act after effects next) : code.Once next := by
  obtain ⟨fresh, here, kept⟩ := once
  have later := kept point state here
  rw [acted] at later
  exact ⟨fresh, later, kept⟩

theorem Once.quiet (once : code.Once point) (called : code.move point state = .next may resume)
    (outcome : Outcome) : code.Quiet (resume outcome) := by
  obtain ⟨fresh, here, kept⟩ := once
  have later := kept point state here
  rw [called] at later
  exact later outcome

end Sparing

end Code

section Frames

variable {State Effect Outcome : Type}

/-- Code that is running, with its position. -/
inductive Frame (State Effect Outcome : Type) where
  | wrapper (position : ℕ) (code : Code true State Effect Outcome) (point : code.Point)
  | innermost (position : ℕ) (code : Code false State Effect Outcome) (point : code.Point)

/-- The position of running code. -/
def Frame.position : Frame State Effect Outcome → ℕ
  | .wrapper position _ _ => position
  | .innermost position _ _ => position

/-- Code that waits for the outcome of a call. -/
structure Suspended (State Effect Outcome : Type) where
  position : ℕ
  code : Code true State Effect Outcome
  resume : Outcome → code.Point

/-- What running code does next. -/
inductive FrameMove (State Effect Outcome : Type) where
  | act (state : State) (events : List (Event Effect)) (frame : Frame State Effect Outcome)
  | call (suspended : Suspended State Effect Outcome)
  | finish (outcome : Outcome)

/-- One move of running code. -/
def Frame.move : Frame State Effect Outcome → State → FrameMove State Effect Outcome
  | .wrapper position code point, state =>
      match code.move point state with
      | .act next effects point =>
          .act next (effects.map (.effect position)) (.wrapper position code point)
      | .next _ resume => .call ⟨position, code, resume⟩
      | .finish outcome => .finish outcome
  | .innermost position code point, state =>
      match code.move point state with
      | .act next effects point =>
          .act next (effects.map (.effect position)) (.innermost position code point)
      | .finish outcome => .finish outcome

/-- Running code acts by a move of its own and stays where it is. -/
theorem Frame.cases_of_act {frame after : Frame State Effect Outcome} {state next : State}
    {events : List (Event Effect)} (acted : frame.move state = .act next events after) :
    (∃ position code point effects following, frame = .wrapper position code point ∧
        code.move point state = .act next effects following ∧
        events = effects.map (.effect position) ∧ after = .wrapper position code following) ∨
      ∃ position code point effects following, frame = .innermost position code point ∧
        code.move point state = .act next effects following ∧
        events = effects.map (.effect position) ∧ after = .innermost position code following := by
  cases frame with
  | wrapper position code point =>
      simp only [Frame.move] at acted
      split at acted
      · next moved => cases acted; exact .inl ⟨_, _, _, _, _, rfl, moved, rfl, rfl⟩
      · cases acted
      · cases acted
  | innermost position code point =>
      simp only [Frame.move] at acted
      split at acted
      · next moved => cases acted; exact .inr ⟨_, _, _, _, _, rfl, moved, rfl, rfl⟩
      · cases acted

/-- Only code that wraps something calls. -/
theorem Frame.exists_of_call {frame : Frame State Effect Outcome} {state : State}
    {suspended : Suspended State Effect Outcome} (called : frame.move state = .call suspended) :
    ∃ point, frame = .wrapper suspended.position suspended.code point ∧
      suspended.code.move point state = .next rfl suspended.resume := by
  cases frame with
  | wrapper position code point =>
      simp only [Frame.move] at called
      split at called
      · cases called
      · next moved => cases called; exact ⟨point, rfl, moved⟩
      · cases called
  | innermost position code point =>
      simp only [Frame.move] at called
      split at called <;> cases called

/-- Go on with the outcome of a call. -/
def Suspended.resumed (suspended : Suspended State Effect Outcome) (outcome : Outcome) :
    Frame State Effect Outcome :=
  .wrapper suspended.position suspended.code (suspended.resume outcome)

variable (innermost : Code false State Effect Outcome)

/-- Start the code at an index of a list of codes, or the innermost code after them. -/
def entry (position : ℕ) (codes : List (Code true State Effect Outcome)) (index : ℕ) :
    Frame State Effect Outcome :=
  match codes[index]? with
  | some code => .wrapper (position + index) code code.start
  | none => .innermost (position + codes.length) innermost innermost.start

theorem entry_succ (position : ℕ) (code : Code true State Effect Outcome)
    (codes : List (Code true State Effect Outcome)) (index : ℕ) :
    entry innermost position (code :: codes) (index + 1) =
      entry innermost (position + 1) codes index := by
  have shifted (offset : ℕ) : position + (offset + 1) = position + 1 + offset := by omega
  rw [entry, entry, List.getElem?_cons_succ, List.length_cons, shifted index,
    shifted codes.length]

/-- A stack of calls represents a control point of the nested code. The last call of the
stack is the outermost one. -/
inductive AtPoint : (position : ℕ) → (codes : List (Code true State Effect Outcome)) →
    List (Suspended State Effect Outcome) → Frame State Effect Outcome →
      (Code.nest innermost position codes).Point → Prop
  | innermost {position : ℕ} {point : innermost.Point} :
      AtPoint position [] [] (.innermost position innermost point) point
  | running {position : ℕ} {code : Code true State Effect Outcome}
      {codes : List (Code true State Effect Outcome)} {point : code.Point} :
      AtPoint position (code :: codes) [] (.wrapper position code point) (.inl point)
  | inside {position : ℕ} {code : Code true State Effect Outcome}
      {codes : List (Code true State Effect Outcome)}
      {stack : List (Suspended State Effect Outcome)} {frame : Frame State Effect Outcome}
      {point : (Code.nest innermost (position + 1) codes).Point} {resume : Outcome → code.Point}
      (inner : AtPoint (position + 1) codes stack frame point) :
      AtPoint position (code :: codes) (stack ++ [⟨position, code, resume⟩]) frame
        (.inr (point, resume))

variable {innermost}

/-- The first code of a list represents the start of the nested code. -/
theorem AtPoint.start (position : ℕ) (codes : List (Code true State Effect Outcome)) :
    AtPoint innermost position codes [] (entry innermost position codes 0)
      (Code.nest innermost position codes).start := by
  cases codes with
  | nil => exact .innermost
  | cons code codes => exact .running

/-- What a move of running code means for the nested code. -/
def AtPoint.Next (innermost : Code false State Effect Outcome) (position : ℕ)
    (codes : List (Code true State Effect Outcome))
    (stack : List (Suspended State Effect Outcome))
    (point : (Code.nest innermost position codes).Point) (state : State) :
    FrameMove State Effect Outcome → Prop
  | .act after events frame => ∃ next,
      (Code.nest innermost position codes).move point state = .act after events next ∧
        AtPoint innermost position codes stack frame next
  | .call suspended => ∃ index next, suspended.position = position + index ∧
      index < codes.length ∧
      (Code.nest innermost position codes).move point state =
        .act state [.called (some suspended.position) (suspended.position + 1)] next ∧
        AtPoint innermost position codes (suspended :: stack)
          (entry innermost position codes (index + 1)) next
  | .finish outcome =>
      match stack with
      | [] => (Code.nest innermost position codes).move point state = .finish outcome
      | suspended :: stack => ∃ next,
          (Code.nest innermost position codes).move point state = .act state [] next ∧
            AtPoint innermost position codes stack (suspended.resumed outcome) next

/-- The nested code moves as the running code does. -/
theorem AtPoint.move {position : ℕ} {codes : List (Code true State Effect Outcome)}
    {stack : List (Suspended State Effect Outcome)} {frame : Frame State Effect Outcome}
    {point : (Code.nest innermost position codes).Point}
    (represents : AtPoint innermost position codes stack frame point) (state : State) :
    AtPoint.Next innermost position codes stack point state (frame.move state) := by
  induction represents with
  | @innermost position point =>
      simp only [Frame.move]
      cases moved : innermost.move point state with
      | act next effects point =>
          refine ⟨point, ?_, .innermost⟩
          simp only [Code.nest, Code.placed, moved]
      | next may resume => cases may
      | finish outcome =>
          simp only [AtPoint.Next, Code.nest, Code.placed, moved]
  | @running position code codes point =>
      simp only [Frame.move]
      cases moved : code.move point state with
      | act next effects point =>
          refine ⟨.inl point, ?_, .running⟩
          simp only [Code.nest, Code.wrap, moved]
      | next may resume =>
          refine ⟨0, .inr ((Code.nest innermost (position + 1) codes).start, resume), rfl,
            Nat.succ_pos _, ?_, ?_⟩
          · simp only [Code.nest, Code.wrap, moved]
          · rw [entry_succ]
            exact AtPoint.inside (AtPoint.start (position + 1) codes)
      | finish outcome =>
          simp only [AtPoint.Next, Code.nest, Code.wrap, moved]
  | @inside position code codes stack frame point resume inner ih =>
      cases moved : frame.move state with
      | act after events next =>
          rw [moved] at ih
          obtain ⟨next, acted, kept⟩ := ih
          refine ⟨.inr (next, resume), ?_, kept.inside⟩
          simp only [Code.nest, Code.wrap, acted]
      | call suspended =>
          rw [moved] at ih
          obtain ⟨index, next, located, bound, acted, entered⟩ := ih
          refine ⟨index + 1, .inr (next, resume), ?_, Nat.succ_lt_succ bound, ?_, ?_⟩
          · rw [located, Nat.add_assoc, Nat.add_comm 1]
          · simp only [Code.nest, Code.wrap, acted]
          · rw [entry_succ]
            exact entered.inside
      | finish outcome =>
          rw [moved] at ih
          cases stack with
          | nil =>
              refine ⟨.inl (resume outcome), ?_, .running⟩
              have finished : (Code.nest innermost (position + 1) codes).move point state =
                .finish outcome := ih
              simp only [Code.nest, Code.wrap, finished]
          | cons suspended stack =>
              obtain ⟨next, acted, resumed⟩ := ih
              refine ⟨.inr (next, resume), ?_, resumed.inside⟩
              simp only [Code.nest, Code.wrap, acted]

end Frames

end Nesting
