import Mathlib.Data.Option.Basic
import Mathlib.Logic.Function.Basic

/-! # Programs over a keyspace

A program reads and writes the slots of a keyspace one at a time, and may choose its next key
by what it has read. It ends with a result or fails, and a failure undoes nothing.

The same program may be run on other names of its keys. A program mirrors another if it touches
the names of the keys that the other touches, in the same order (`Program.Mirrors`). As long as
different keys have different names, it then does under the names what the other does under the
keys, and touches nothing else (`Program.Mirrors.run`).
-/

/-- A program that reads and writes slots. -/
inductive Program (Key Slot Result : Type) where
  | done (result : Result)
  | fail
  | read (key : Key) (next : Slot → Program Key Slot Result)
  | write (key : Key) (slot : Slot) (next : Program Key Slot Result)

namespace Program

variable {Key Slot Result Other Name : Type}

/-- Continue with the result. -/
protected def bind : Program Key Slot Result → (Result → Program Key Slot Other) →
    Program Key Slot Other
  | .done result, proceed => proceed result
  | .fail, _ => .fail
  | .read key next, proceed => .read key fun slot => (next slot).bind proceed
  | .write key slot next, proceed => .write key slot (next.bind proceed)

instance : Monad (Program Key Slot) where
  pure := .done
  bind := .bind

/-- The slots after a program and its result, if it has not failed. -/
def run [DecidableEq Key] : Program Key Slot Result → (Key → Slot) → (Key → Slot) × Option Result
  | .done result, slots => (slots, some result)
  | .fail, slots => (slots, none)
  | .read key next, slots => (next (slots key)).run slots
  | .write key slot next, slots => next.run (Function.update slots key slot)

/-- Go on although the program may have failed. -/
def attempt : Program Key Slot Result → Program Key Slot (Option Result)
  | .done result => .done (some result)
  | .fail => .done none
  | .read key next => .read key fun slot => (next slot).attempt
  | .write key slot next => .write key slot next.attempt

/-- A program that does under other names of its keys what the first one does, and ends with a
corresponding result. -/
inductive Mirrors (named : Key → Name → Prop) (same : Result → Other → Prop) :
    Program Key Slot Result → Program Name Slot Other → Prop
  | done {result : Result} {other : Other} : same result other →
      Mirrors named same (.done result) (.done other)
  | fail : Mirrors named same .fail .fail
  | read {key : Key} {name : Name} {next : Slot → Program Key Slot Result}
      {next' : Slot → Program Name Slot Other} : named key name →
      (∀ slot, Mirrors named same (next slot) (next' slot)) →
      Mirrors named same (.read key next) (.read name next')
  | write {key : Key} {name : Name} {slot : Slot} {next : Program Key Slot Result}
      {next' : Program Name Slot Other} : named key name → Mirrors named same next next' →
      Mirrors named same (.write key slot next) (.write name slot next')

section Running

variable [DecidableEq Key]

@[simp] theorem run_pure (result : Result) (slots : Key → Slot) :
    (pure result : Program Key Slot Result).run slots = (slots, some result) := rfl

@[simp] theorem run_fail (slots : Key → Slot) :
    (.fail : Program Key Slot Result).run slots = (slots, none) := rfl

@[simp] theorem run_read (key : Key) (next : Slot → Program Key Slot Result)
    (slots : Key → Slot) : (Program.read key next).run slots = (next (slots key)).run slots := rfl

@[simp] theorem run_write (key : Key) (slot : Slot) (next : Program Key Slot Result)
    (slots : Key → Slot) :
    (Program.write key slot next).run slots = next.run (Function.update slots key slot) := rfl

/-- A program that continues another runs from where that one ends. -/
theorem run_bind (program : Program Key Slot Result) (proceed : Result → Program Key Slot Other)
    (slots : Key → Slot) :
    (program >>= proceed).run slots =
      match program.run slots with
      | (after, some result) => (proceed result).run after
      | (after, none) => (after, none) := by
  change (program.bind proceed).run slots = _
  induction program generalizing slots with
  | done result | fail => rfl
  | read key next ih => exact ih _ _
  | write key slot next ih => exact ih _

theorem run_bind_of_some {program : Program Key Slot Result}
    {proceed : Result → Program Key Slot Other} {slots after : Key → Slot} {result : Result}
    (ran : program.run slots = (after, some result)) :
    (program >>= proceed).run slots = (proceed result).run after := by
  rw [run_bind, ran]

theorem run_attempt (program : Program Key Slot Result) (slots : Key → Slot) :
    program.attempt.run slots = ((program.run slots).1, some (program.run slots).2) := by
  induction program generalizing slots with
  | done result | fail => rfl
  | read key next ih => exact ih _ _
  | write key slot next ih => exact ih _

end Running

section Naming

variable {Result' Other' : Type} {named : Key → Name → Prop} {same : Result → Result' → Prop}
  {same' : Other → Other' → Prop}

theorem Mirrors.pure {result : Result} {result' : Result'} (corresponds : same result result') :
    Mirrors named same (pure result : Program Key Slot Result)
      (Pure.pure result' : Program Name Slot Result') := .done corresponds

/-- Programs that continue one another mirror one another if their parts do. -/
theorem Mirrors.bind {program : Program Key Slot Result} {program' : Program Name Slot Result'}
    {proceed : Result → Program Key Slot Other} {proceed' : Result' → Program Name Slot Other'}
    (first : Mirrors named same program program')
    (rest : ∀ result result', same result result' →
      Mirrors named same' (proceed result) (proceed' result')) :
    Mirrors named same' (program >>= proceed) (program' >>= proceed') := by
  change Mirrors named same' (program.bind proceed) (program'.bind proceed')
  induction first with
  | done corresponds => exact rest _ _ corresponds
  | fail => exact .fail
  | read names _ ih => exact .read names ih
  | write names _ ih => exact .write names ih

theorem Mirrors.attempt {program : Program Key Slot Result}
    {program' : Program Name Slot Result'} (mirrors : Mirrors named same program program') :
    Mirrors named (Option.Rel same) program.attempt program'.attempt := by
  induction mirrors with
  | done corresponds => exact .done (.some corresponds)
  | fail => exact .done .none
  | read names _ ih => exact .read names ih
  | write names _ ih => exact .write names ih

/-- A program and its mirror image run on slots that agree: they fail together or end with
corresponding results, leave slots that agree, and the image touches no name that names no
key. -/
theorem Mirrors.run [DecidableEq Key] [DecidableEq Name]
    (apart : ∀ key name key' name', named key name → named key' name' →
      (key = key' ↔ name = name'))
    {program : Program Key Slot Result} {image : Program Name Slot Result'}
    (mirrors : Mirrors named same program image) {slots : Key → Slot} {images : Name → Slot}
    (agree : ∀ key name, named key name → images name = slots key) :
    Option.Rel same (program.run slots).2 (image.run images).2 ∧
      (∀ key name, named key name → (image.run images).1 name = (program.run slots).1 key) ∧
      ∀ name, (∀ key, ¬ named key name) → (image.run images).1 name = images name := by
  induction mirrors generalizing slots images with
  | done corresponds => exact ⟨.some corresponds, agree, fun _ _ => rfl⟩
  | fail => exact ⟨.none, agree, fun _ _ => rfl⟩
  | read names _ ih =>
      rw [run_read, run_read, agree _ _ names]
      exact ih _ agree
  | @write key name slot next next' names _ ih =>
      rw [run_write, run_write]
      have kept : ∀ other name', named other name' →
          Function.update images name slot name' = Function.update slots key slot other := by
        intro other name' names'
        by_cases equal : other = key
        · rw [equal, (apart _ _ _ _ names' names).mp equal, Function.update_self,
            Function.update_self]
        · have different := fun clash => equal ((apart _ _ _ _ names' names).mpr clash)
          rw [Function.update_of_ne equal, Function.update_of_ne different]
          exact agree other name' names'
      obtain ⟨results, named, others⟩ := ih kept
      refine ⟨results, named, fun other unnamed => ?_⟩
      rw [others other unnamed, Function.update_of_ne]
      rintro rfl
      exact unnamed key names

end Naming

end Program
