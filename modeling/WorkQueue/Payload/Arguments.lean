import WorkQueue.Payload.Job

/-! # Typed arguments

A handler extracts the arguments of its job by key and type. An argument that is missing
or of another type yields the zero value of the type and sets the argument error of the
job (`Job.typedArg`), and the four extractors differ only in the values they accept.

The arguments of a job that was fetched are doubles wherever a number was written. An
integer is accepted from a double only within fixed bounds, and since the bounds are
narrower than the integers that a double holds exactly, no integer comes out altered, but
some that were kept exactly are refused (`Job.argInt64_kept_iff`).
-/

/-- The values of a map of arguments by their kind. Floating-point kinds are widened to
doubles. -/
inductive ArgValue where
  | int (value : Int64)
  | uint (value : UInt64)
  | float (value : ℚ)
  | string (value : String)
  | bool (value : Bool)
  | other (value : Json)
  deriving DecidableEq

/-- The value that a decoder makes of a document: every number is a double. -/
def Json.argValue : Json → ArgValue
  | .num number => .float (Float64.read number.value)
  | .str value => .string value
  | .bool value => .bool value
  | .null => .other .null
  | .arr items => .other (.arr items)
  | .obj fields => .other (.obj fields)

/-- Why an argument could not be extracted: no value under the key, or one of another type. -/
inductive ArgError where
  | missingKey (jsonType key : String)
  | typecast (jsonType key : String) (value : ArgValue)
  deriving DecidableEq

/-- What a processor makes of a double beyond the range of the integers: always the least
integer, or the nearest one. -/
inductive IntConversion where
  | indefinite
  | saturating
  deriving DecidableEq

namespace Float64

/-- Drop the fraction. -/
def trunc (value : ℚ) : ℤ := if 0 ≤ value then ⌊value⌋ else ⌈value⌉

/-- Convert a double to an integer of 64 bits. -/
def toInt64 (conversion : IntConversion) (value : ℚ) : Int64 :=
  if -2 ^ 63 ≤ trunc value ∧ trunc value < 2 ^ 63 then Int64.ofInt (trunc value)
  else
    match conversion with
    | .indefinite => Int64.minValue
    | .saturating => if value < 0 then Int64.minValue else Int64.maxValue

theorem trunc_intCast (value : ℤ) : trunc value = value := by
  simp only [trunc, Int.floor_intCast, Int.ceil_intCast, ite_self]

theorem toInt64_intCast (conversion : IntConversion) (value : Int64) :
    toInt64 conversion value.toInt = value := by
  unfold toInt64
  rw [trunc_intCast, if_pos ⟨value.le_toInt, value.toInt_lt⟩, Int64.ofInt_toInt]

/-- A double beyond a bound is converted to an integer beyond the bound. -/
theorem toInt64_beyond (conversion : IntConversion) (bound : ℤ) (small : bound < 2 ^ 63 - 1)
    {value : ℚ} (beyond : bound + 1 ≤ |value|) :
    (toInt64 conversion value).toInt < -bound ∨ bound < (toInt64 conversion value).toInt := by
  have least : (Int64.minValue).toInt = -2 ^ 63 := by decide
  have greatest : (Int64.maxValue).toInt = 2 ^ 63 - 1 := by decide
  unfold toInt64
  split
  · next inside =>
      rw [Int64.toInt_ofInt_of_le inside.1 inside.2]
      rcases le_total 0 value with positive | negative
      · rw [abs_of_nonneg positive] at beyond
        have reached : bound + 1 ≤ ⌊value⌋ := Int.le_floor.mpr (by exact_mod_cast beyond)
        rw [trunc, if_pos positive]
        omega
      · rw [abs_of_nonpos negative] at beyond
        have reached : ⌈value⌉ ≤ -(bound + 1) := Int.ceil_le.mpr (by push_cast; linarith)
        by_cases zero : 0 ≤ value
        · have same : value = 0 := le_antisymm negative zero
          rw [same, trunc, if_pos le_rfl, Int.floor_zero]
          rw [same, Int.ceil_zero] at reached
          omega
        · rw [trunc, if_neg zero]
          omega
  · cases conversion with
    | indefinite =>
        simp only [least]
        omega
    | saturating =>
        simp only []
        split
        · rw [least]
          omega
        · rw [greatest]
          omega

end Float64

namespace ArgValue

/-- The texts that are accepted. -/
def toText : ArgValue → Option String
  | .string value => some value
  | _ => none

/-- The integers that are accepted: those of an integer kind, and whole doubles within
fixed bounds. -/
def toInt64 (conversion : IntConversion) : ArgValue → Option Int64
  | .int value => some value
  | .uint value => if value.toNat ≤ 2 ^ 63 - 1 then some value.toInt64 else none
  | .float value =>
      let converted := Float64.toInt64 conversion value
      if value = Float64.trunc value ∧ converted ≤ 9007199254740892 ∧
          converted ≥ -9007199254740892 then some converted
      else none
  | _ => none

/-- The doubles that are accepted. Integers are rounded. -/
def toFloat64 : ArgValue → Option ℚ
  | .int value => some (Float64.read value.toInt)
  | .uint value => some (Float64.read value.toNat)
  | .float value => some value
  | _ => none

/-- The flags that are accepted. -/
def toFlag : ArgValue → Option Bool
  | .bool value => some value
  | _ => none

end ArgValue

/-- A map of arguments as a handler sees it. -/
abbrev ArgMap := String → Option ArgValue

/-- The arguments of a job that was decoded. -/
def Job.argMap (job : Job) : ArgMap := fun key => ((job.args.getD []).lookup key).map Json.argValue

namespace ArgMap

/-- Extract an argument of some type, together with the argument error after it. -/
def typedArg {Value : Type} (jsonType : String) (typed : ArgValue → Option Value) (zero : Value)
    (args : ArgMap) (key : String) (argError : Option ArgError) : Value × Option ArgError :=
  match args key with
  | some argument =>
      match typed argument with
      | some value => (value, argError)
      | none => (zero, some (.typecast jsonType key argument))
  | none => (zero, some (.missingKey jsonType key))

def argString : ArgMap → String → Option ArgError → String × Option ArgError :=
  typedArg "string" ArgValue.toText ""

def argInt64 (conversion : IntConversion) :
    ArgMap → String → Option ArgError → Int64 × Option ArgError :=
  typedArg "int64" (ArgValue.toInt64 conversion) 0

def argFloat64 : ArgMap → String → Option ArgError → ℚ × Option ArgError :=
  typedArg "float64" ArgValue.toFloat64 0

def argBool : ArgMap → String → Option ArgError → Bool × Option ArgError :=
  typedArg "bool" ArgValue.toFlag false

/-- An extractor returns an argument of its type and leaves the argument error alone, or it
returns the zero value and sets the error. -/
theorem typedArg_cases {Value : Type} (jsonType : String) (typed : ArgValue → Option Value)
    (zero : Value) (args : ArgMap) (key : String) (argError : Option ArgError) :
    (∃ argument value, args key = some argument ∧ typed argument = some value ∧
        typedArg jsonType typed zero args key argError = (value, argError)) ∨
      ∃ error, typedArg jsonType typed zero args key argError = (zero, some error) := by
  unfold typedArg
  cases args key with
  | none => exact .inr ⟨_, rfl⟩
  | some argument =>
      cases accepted : typed argument with
      | none => exact .inr ⟨.typecast jsonType key argument, by simp only [accepted]⟩
      | some value => exact .inl ⟨argument, value, rfl, accepted, by simp only [accepted]⟩

end ArgMap

section Integers

/-- Which integers are accepted after they have been read as a double. -/
theorem ArgValue.toInt64_read (conversion : IntConversion) (value : Int64) :
    toInt64 conversion (.float (Float64.read value.toInt)) =
      if |value.toInt| ≤ 9007199254740892 then some value else none := by
  have upper : (9007199254740892 : Int64).toInt = 9007199254740892 := by decide
  have lower : (-9007199254740892 : Int64).toInt = -9007199254740892 := by decide
  by_cases short : |value.toInt| < 2 ^ 53
  · simp only [toInt64, Float64.read_intCast short, Float64.toInt64_intCast,
      Float64.trunc_intCast, true_and, Int64.le_iff_toInt_le, ge_iff_le, upper, lower]
    refine if_congr ?_ rfl rfl
    rw [abs_le, and_comm]
  · have beyond := Float64.le_abs_read (not_lt.mp short)
    have refused := Float64.toInt64_beyond conversion 9007199254740892 (by decide)
      (le_trans (by norm_num) beyond)
    have wide : ¬ |value.toInt| ≤ 9007199254740892 := by omega
    simp only [toInt64, Int64.le_iff_toInt_le, ge_iff_le, upper, lower]
    rw [if_neg wide, if_neg]
    rintro ⟨-, above, below⟩
    omega

/-- A decoded integer is the nearest double. -/
theorem Json.argValue_normalise_int (value : ℤ) :
    (Json.num (.int value)).normalise.argValue = .float (Float64.read value) := by
  change ArgValue.float (Float64.read (Float64.encode (Float64.read value)).value) = _
  rw [Float64.value_encode, Float64.read_shortest]

/-- A job with an integer as its only argument. -/
def Job.withInteger (job : Job) (key : String) (value : Int64) : Job :=
  { job with args := some [(key, .num (.int value.toInt))] }

variable (job : Job) (key : String) (value : Int64) (dequeuedFrom inProgQueue : ListKey)

/-- A fetched job has the nearest double in place of an integer argument. -/
theorem Job.argMap_withInteger :
    ∃ fetched, newJob (.json (job.withInteger key value).serialize) dequeuedFrom inProgQueue =
        some fetched ∧
      fetched.toJob.argMap key = some (.float (Float64.read value.toInt)) := by
  have fit : (encodeArgs (job.withInteger key value).args).numbersFit := by
    rw [withInteger, encodeArgs, Json.numbersFit_obj, List.all_cons, List.all_nil, Bool.and_true]
    exact Float64.fits_int64 value
  refine ⟨⟨(job.withInteger key value).normalise, .json (job.withInteger key value).serialize,
    dequeuedFrom, inProgQueue⟩, ?_, ?_⟩
  · rw [newJob, decode_serialize _ fit]
    rfl
  · simp only [argMap, normalise, withInteger, Option.map_some, List.map_cons, List.map_nil,
      Json.lastFields_singleton, Json.sortFields, List.insertionSort_cons, List.insertionSort_nil,
      List.orderedInsert_nil, Option.getD_some, List.lookup_cons_self, Json.argValue_normalise_int]

/-- An integer is not silently altered: it is returned without an error if a double holds all
integers of its size, and otherwise it is returned or refused with an error. -/
def ArgMap.KeepsInteger (conversion : IntConversion) (args : ArgMap) (key : String)
    (value : Int64) : Prop :=
  (|value.toInt| ≤ 2 ^ 53 - 1 → args.argInt64 conversion key none = (value, none)) ∧
    (2 ^ 53 - 1 < |value.toInt| → args.argInt64 conversion key none = (value, none) ∨
      ∃ error, args.argInt64 conversion key none = (0, some error))

/-- What is extracted in place of an integer. -/
theorem ArgMap.argInt64_of_read (conversion : IntConversion) {args : ArgMap}
    (read : args key = some (.float (Float64.read value.toInt))) :
    args.argInt64 conversion key none =
      if |value.toInt| ≤ 9007199254740892 then (value, none)
      else (0, some (.typecast "int64" key (.float (Float64.read value.toInt)))) := by
  simp only [argInt64, typedArg, read, ArgValue.toInt64_read]
  by_cases inside : |value.toInt| ≤ 9007199254740892
  · simp only [inside, ↓reduceIte]
  · simp only [inside, ↓reduceIte]

/-- An integer argument of a fetched job never comes out as another integer without an error.
It is kept unless it lies between the bounds of the extractor and the largest integers that
a double holds exactly. -/
theorem Job.argInt64_kept_iff (conversion : IntConversion) :
    ∃ fetched, newJob (.json (job.withInteger key value).serialize) dequeuedFrom inProgQueue =
        some fetched ∧
      (fetched.toJob.argMap.argInt64 conversion key none = (value, none) ∨
        ∃ error, fetched.toJob.argMap.argInt64 conversion key none = (0, some error)) ∧
      (fetched.toJob.argMap.KeepsInteger conversion key value ↔
        ¬ (9007199254740893 ≤ |value.toInt| ∧ |value.toInt| ≤ 2 ^ 53 - 1)) := by
  obtain ⟨fetched, decoded, read⟩ := job.argMap_withInteger key value dequeuedFrom inProgQueue
  refine ⟨fetched, decoded, ?_⟩
  have extracted := ArgMap.argInt64_of_read key value conversion read
  unfold ArgMap.KeepsInteger
  by_cases inside : |value.toInt| ≤ 9007199254740892
  · rw [if_pos inside] at extracted
    refine ⟨.inl extracted, fun _ => ?_, fun _ => ⟨fun _ => extracted, fun _ => .inl extracted⟩⟩
    omega
  · rw [if_neg inside] at extracted
    refine ⟨.inr ⟨_, extracted⟩, fun kept between => ?_, fun outside => ⟨fun short => ?_, fun _ =>
      .inr ⟨_, extracted⟩⟩⟩
    · -- A refused integer comes with an error.
      have clean := kept.1 between.2
      rw [extracted] at clean
      cases clean
    · omega

/-- An integer that a double holds exactly is refused. -/
theorem Job.argInt64_refuses_exact :
    let job : Job := { name := "send", id := "1" }
    |(9007199254740991 : Int64).toInt| ≤ 2 ^ 53 - 1 ∧
      ((newJob (.json (job.withInteger "n" 9007199254740991).serialize) (.jobs "send")
          (.inProgress "A" "send")).map fun fetched =>
        fetched.toJob.argMap.argInt64 .saturating "n" none) =
        some (0, some (.typecast "int64" "n" (.float 9007199254740991))) := by
  decide +kernel

end Integers
