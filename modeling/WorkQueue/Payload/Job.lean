import Mathlib.Data.Char
import Mathlib.Data.List.Lex
import Mathlib.Data.List.Sort
import WorkQueue.Payload.Float
import WorkQueue.Redis.Keys

/-! # Jobs and their JSON encoding

A job is encoded as a JSON object that omits its empty fields, except for the
identifier, the time and the arguments. The decoder goes through the members of an
object and assigns each to the field of its name, whose case does not matter: a
null leaves the field as it is, the last of several members wins (maps of arguments
are merged), and a member of another type fails the whole decoding. Where every
field is named at most once and exactly (`Json.Unambiguous`), as in an encoded job, the
decoder and a script read the same (`Job.readFrom_of_decode`).

The arguments of a job are represented by what the encoder writes for them.
Decoding turns them into maps with sorted keys and doubles, so decoding an encoded
job returns the job with normalised arguments (`Job.decode_serialize`).
-/

namespace Json

/-- Fields in ascending order of their names. -/
def sortFields {Value : Type} (fields : List (String × Value)) : List (String × Value) :=
  fields.insertionSort fun first second => first.1.toList ≤ second.1.toList

/-- What is written for a document after decoding it into maps and doubles. -/
def normalise : Json → Json := fold
  { null := .null
    bool := .bool
    num := fun number => .num (Float64.encode (Float64.read number.value))
    str := .str
    arr := .arr
    obj := fun fields => .obj (sortFields (lastFields fields)) }

/-- Whether every number of a document is within the range of doubles. -/
def numbersFit : Json → Bool := fold
  { null := true
    bool := fun _ => true
    num := fun number => Float64.fits number.value
    str := fun _ => true
    arr := fun items => items.all id
    obj := fun fields => fields.all fun field => field.2 }

theorem numbersFit_arr (items : List Json) :
    (Json.arr items).numbersFit = items.all numbersFit := by
  rw [numbersFit, fold_arr]
  simp only [List.all_map]
  rfl

theorem numbersFit_obj (fields : List (String × Json)) :
    (Json.obj fields).numbersFit = fields.all fun field => field.2.numbersFit := by
  rw [numbersFit, fold_obj]
  simp only [List.all_map]
  rfl

end Json

/-- The exported fields of a job. -/
structure Job where
  name : String := ""
  id : String := ""
  enqueuedAt : Int64 := 0
  args : Args := none
  unique : Bool := false
  uniqueKey : String := ""
  fails : Int64 := 0
  lastErr : String := ""
  failedAt : Int64 := 0
  deriving DecidableEq

namespace Job

/-- A field that is left out when it is empty. -/
def omitEmpty (empty : Bool) (key : String) (value : Json) : List (String × Json) :=
  if empty then [] else [(key, value)]

/-- The encoding of a map of arguments. -/
def encodeArgs : Args → Json
  | none => .null
  | some fields => .obj fields

/-- The fields of an encoded job. -/
def fields (job : Job) : List (String × Json) :=
  omitEmpty (job.name = "") "name" (.str job.name) ++
  [("id", .str job.id), ("t", .num (.int job.enqueuedAt.toInt)), ("args", encodeArgs job.args)] ++
  omitEmpty (!job.unique) "unique" (.bool job.unique) ++
  omitEmpty (job.uniqueKey = "") "unique_key" (.str job.uniqueKey) ++
  omitEmpty (job.fails = 0) "fails" (.num (.int job.fails.toInt)) ++
  omitEmpty (job.lastErr = "") "err" (.str job.lastErr) ++
  omitEmpty (job.failedAt = 0) "failed_at" (.num (.int job.failedAt.toInt))

/-- The JSON encoding of a job. -/
def serialize (job : Job) : Json := .obj job.fields

/-- The names of the fields of a job. -/
def fieldNames : List String :=
  ["name", "id", "t", "args", "unique", "unique_key", "fails", "err", "failed_at"]

/-- A character as names of fields are compared: without its case. The long s and the Kelvin
sign are the only other characters with the case of an ASCII letter. -/
def foldChar (char : Char) : Char :=
  if char = 'ſ' then 's' else if char = '\u212a' then 'k' else char.toLower

/-- A name as names of fields are compared. -/
def foldName (name : String) : List Char := name.toList.map foldChar

/-- The values assigned to a field, in the order of the members. -/
def assigned (key : String) (fields : List (String × Json)) : List Json :=
  (fields.filter fun field => foldName field.1 = key.toList).map Prod.snd

/-- Assign a member to a text field. -/
def assignString (current : String) : Json → Option String
  | .null => some current
  | .str value => some value
  | _ => none

/-- Assign a member to an integer field. Only plain integers within range are accepted. -/
def assignInt64 (current : Int64) : Json → Option Int64
  | .null => some current
  | .num (.int value) =>
      if -2 ^ 63 ≤ value ∧ value < 2 ^ 63 then some (Int64.ofInt value) else none
  | _ => none

/-- Assign a member to a flag. -/
def assignBool (current : Bool) : Json → Option Bool
  | .null => some current
  | .bool value => some value
  | _ => none

/-- Assign a member to the arguments, which become maps and doubles. The entries of a map
that is already there are kept, and a null clears it. -/
def assignArgs (current : Args) : Json → Option Args
  | .null => some none
  | .obj fields =>
      if (Json.obj fields).numbersFit then
        some (some (Json.sortFields (Json.lastFields
          (current.getD [] ++ fields.map fun field => (field.1, field.2.normalise)))))
      else none
  | _ => none

/-- Decode a job from a document. -/
def decode : Json → Option Job
  | .null => some {}
  | .obj fields => do
      let name ← (assigned "name" fields).foldlM assignString ""
      let id ← (assigned "id" fields).foldlM assignString ""
      let enqueuedAt ← (assigned "t" fields).foldlM assignInt64 0
      let args ← (assigned "args" fields).foldlM assignArgs none
      let unique ← (assigned "unique" fields).foldlM assignBool false
      let uniqueKey ← (assigned "unique_key" fields).foldlM assignString ""
      let fails ← (assigned "fails" fields).foldlM assignInt64 0
      let lastErr ← (assigned "err" fields).foldlM assignString ""
      let failedAt ← (assigned "failed_at" fields).foldlM assignInt64 0
      some { name, id, enqueuedAt, args, unique, uniqueKey, fails, lastErr, failedAt }
  | _ => none

/-- The job records one more failure. -/
def failed (job : Job) (message : String) (now : Int64) : Job :=
  { job with fails := job.fails + 1, lastErr := message, failedAt := now }

/-- The job as it is after decoding its encoding. -/
def normalise (job : Job) : Job :=
  { job with
    args := job.args.map fun fields =>
      Json.sortFields (Json.lastFields (fields.map fun field => (field.1, field.2.normalise))) }

section Members

/-- Decode a text field that is named at most once. -/
def decodeString : Option Json → Option String
  | none => some ""
  | some value => assignString "" value

/-- Decode an integer field that is named at most once. -/
def decodeInt64 : Option Json → Option Int64
  | none => some 0
  | some value => assignInt64 0 value

/-- Decode a flag that is named at most once. -/
def decodeBool : Option Json → Option Bool
  | none => some false
  | some value => assignBool false value

/-- Decode arguments that are named at most once. -/
def decodeArgs : Option Json → Option Args
  | none => some none
  | some value => assignArgs none value

theorem foldlM_toList {Value : Type} (assign : Value → Json → Option Value) (empty : Value)
    (field : Option Json) :
    field.toList.foldlM assign empty = field.elim (some empty) (assign empty) := by
  cases field with
  | none => rfl
  | some value => exact bind_pure (assign empty value)

theorem foldlM_assignString (field : Option Json) :
    field.toList.foldlM assignString "" = decodeString field := by
  rw [foldlM_toList]
  cases field <;> rfl

theorem foldlM_assignInt64 (field : Option Json) :
    field.toList.foldlM assignInt64 0 = decodeInt64 field := by
  rw [foldlM_toList]
  cases field <;> rfl

theorem foldlM_assignBool (field : Option Json) :
    field.toList.foldlM assignBool false = decodeBool field := by
  rw [foldlM_toList]
  cases field <;> rfl

theorem foldlM_assignArgs (field : Option Json) :
    field.toList.foldlM assignArgs none = decodeArgs field := by
  rw [foldlM_toList]
  cases field <;> rfl

end Members

end Job

namespace Json

/-- A list of names has each field of a job at most once, and exactly. -/
def UnambiguousNames (names : List String) : Prop :=
  ∀ key ∈ Job.fieldNames,
    (names.filter fun name => Job.foldName name = key.toList).Sublist [key]

instance (names : List String) : Decidable (UnambiguousNames names) :=
  inferInstanceAs (Decidable (∀ key ∈ Job.fieldNames,
    (names.filter fun name => Job.foldName name = key.toList).Sublist [key]))

/-- An object names each field of a job at most once, and exactly. -/
def Unambiguous : Json → Prop
  | .obj fields => UnambiguousNames (fields.map Prod.fst)
  | _ => True

instance : ∀ json : Json, Decidable json.Unambiguous
  | .null | .bool _ | .num _ | .str _ | .arr _ => inferInstanceAs (Decidable True)
  | .obj fields => inferInstanceAs (Decidable (UnambiguousNames (fields.map Prod.fst)))

section Unambiguous

variable {names : List String} {fields : List (String × Json)} {key : String}

theorem foldName_of_mem : ∀ key ∈ Job.fieldNames, Job.foldName key = key.toList := by
  decide

theorem unambiguousNames_fieldNames : UnambiguousNames Job.fieldNames := by
  decide

theorem UnambiguousNames.sublist (unambiguous : UnambiguousNames names) {fewer : List String}
    (sublist : fewer.Sublist names) : UnambiguousNames fewer :=
  fun key member => (sublist.filter _).trans (unambiguous key member)

/-- Setting a field of a job once leaves every field named at most once. -/
theorem UnambiguousNames.cons_filter (unambiguous : UnambiguousNames names)
    (known : key ∈ Job.fieldNames) :
    UnambiguousNames (key :: names.filter fun name => name ≠ key) := by
  intro other member
  have kept : ((names.filter fun name => name ≠ key).filter
      fun name => Job.foldName name = other.toList).Sublist [other] :=
    unambiguous.sublist List.filter_sublist other member
  rw [List.filter_cons]
  split
  · next folded =>
      -- the only name that could be there as well has been filtered out
      have same : key = other := by
        rw [decide_eq_true_eq, foldName_of_mem key known] at folded
        exact String.toList_injective folded
      subst same
      have gone : (names.filter fun name => name ≠ key).filter
          (fun name => Job.foldName name = key.toList) = [] := by
        refine List.eq_nil_iff_forall_not_mem.mpr fun name found => ?_
        have exact := List.mem_singleton.mp (kept.subset found)
        exact of_decide_eq_true (List.mem_filter.mp (List.mem_filter.mp found).1).2 exact
      rw [gone]
  · exact kept

theorem unambiguousNames_removeField (unambiguous : UnambiguousNames (fields.map Prod.fst))
    (key : String) :
    UnambiguousNames ((removeField key fields).map Prod.fst) :=
  unambiguous.sublist (List.filter_sublist.map Prod.fst)

theorem unambiguousNames_setField (unambiguous : UnambiguousNames (fields.map Prod.fst))
    (known : key ∈ Job.fieldNames) (value : Json) :
    UnambiguousNames ((setField key value fields).map Prod.fst) := by
  have names : (removeField key fields).map Prod.fst =
      (fields.map Prod.fst).filter fun name => name ≠ key := by
    rw [List.filter_map]
    rfl
  rw [setField, List.map_cons, names]
  exact unambiguous.cons_filter known

/-- A field that is named at most once is assigned what it is looked up to be. -/
theorem UnambiguousNames.assigned_eq (unambiguous : UnambiguousNames (fields.map Prod.fst))
    (known : key ∈ Job.fieldNames) : Job.assigned key fields = (getField key fields).toList := by
  induction fields with
  | nil => rfl
  | cons field fields ih =>
      have rest := ih (unambiguous.sublist (List.sublist_cons_self _ _))
      have once := unambiguous key known
      rw [List.map_cons, List.filter_cons] at once
      rw [Job.assigned, List.filter_cons]
      by_cases same : Job.foldName field.1 = key.toList
      · -- the member is of this field, so no other one is
        rw [if_pos (decide_eq_true same)] at once ⊢
        have exact : field.1 = key := List.mem_singleton.mp (once.subset List.mem_cons_self)
        have alone : (fields.map Prod.fst).filter
            (fun name => Job.foldName name = key.toList) = [] := by
          have bound := once.length_le
          simp only [List.length_cons, List.length_nil] at bound
          exact List.length_eq_zero_iff.mp (by omega)
        have unnamed : field.1 ∉ fields.map Prod.fst := by
          intro again
          have found : field.1 ∈ (fields.map Prod.fst).filter
              (fun name => Job.foldName name = key.toList) :=
            List.mem_filter.mpr ⟨again, decide_eq_true same⟩
          rw [alone] at found
          exact List.not_mem_nil found
        have unassigned : fields.filter (fun field => Job.foldName field.1 = key.toList) = [] := by
          rw [List.filter_map] at alone
          exact List.map_eq_nil_iff.mp alone
        rw [unassigned, getField, lastFields, if_neg unnamed, List.lookup_cons, exact]
        simp
      · have other : key ≠ field.1 := fun equal => same (equal ▸ foldName_of_mem key known)
        rw [if_neg (by simpa using same), getField, lastFields]
        split
        · exact rest
        · rw [List.lookup_cons, beq_eq_false_iff_ne.mpr other]
          exact rest

end Unambiguous

end Json

namespace Job

section Lookup

theorem lookup_omitEmpty (empty : Bool) (key other : String) (value : Json) :
    (omitEmpty empty key value).lookup other =
      if other = key ∧ empty = false then some value else none := by
  cases empty with
  | true => simp [omitEmpty]
  | false =>
      by_cases same : other = key
      · simp [omitEmpty, same]
      · simp [omitEmpty, same, List.lookup_cons, beq_eq_false_iff_ne.mpr same]

theorem names_omitEmpty (empty : Bool) (key : String) (value : Json) :
    ((omitEmpty empty key value).map Prod.fst).Sublist [key] := by
  cases empty with
  | true => exact List.nil_sublist _
  | false => exact List.Sublist.refl _

variable (job : Job)

/-- The fields of an encoded job are some of the fields of a job, in their order. -/
theorem names_fields : (job.fields.map Prod.fst).Sublist fieldNames := by
  simp only [fields, List.map_append]
  exact (((((names_omitEmpty _ _ _).append (.refl _)).append (names_omitEmpty _ _ _)).append
    (names_omitEmpty _ _ _)).append (names_omitEmpty _ _ _)).append (names_omitEmpty _ _ _)
    |>.append (names_omitEmpty _ _ _)

theorem unambiguousNames_fields : Json.UnambiguousNames (job.fields.map Prod.fst) :=
  Json.unambiguousNames_fieldNames.sublist job.names_fields

theorem unambiguous_serialize : job.serialize.Unambiguous := job.unambiguousNames_fields

theorem getField_fields (key : String) : Json.getField key job.fields = job.fields.lookup key :=
  Json.getField_of_nodup (job.names_fields.nodup (by decide)) key

theorem getField_name :
    Json.getField "name" job.fields = if job.name = "" then none else some (.str job.name) := by
  rw [getField_fields]
  simp [fields, List.lookup_append, lookup_omitEmpty, List.lookup_cons]

theorem getField_id : Json.getField "id" job.fields = some (.str job.id) := by
  rw [getField_fields]
  simp [fields, List.lookup_append, lookup_omitEmpty]

theorem getField_t : Json.getField "t" job.fields = some (.num (.int job.enqueuedAt.toInt)) := by
  rw [getField_fields]
  simp [fields, List.lookup_append, lookup_omitEmpty, List.lookup_cons]

theorem getField_args : Json.getField "args" job.fields = some (encodeArgs job.args) := by
  rw [getField_fields]
  simp [fields, List.lookup_append, lookup_omitEmpty, List.lookup_cons]

theorem getField_unique :
    Json.getField "unique" job.fields = if job.unique then some (.bool job.unique) else none := by
  rw [getField_fields]
  simp [fields, List.lookup_append, lookup_omitEmpty, List.lookup_cons]

theorem getField_uniqueKey :
    Json.getField "unique_key" job.fields =
      if job.uniqueKey = "" then none else some (.str job.uniqueKey) := by
  rw [getField_fields]
  simp [fields, List.lookup_append, lookup_omitEmpty, List.lookup_cons]

theorem getField_fails :
    Json.getField "fails" job.fields =
      if job.fails = 0 then none else some (.num (.int job.fails.toInt)) := by
  rw [getField_fields]
  simp [fields, List.lookup_append, lookup_omitEmpty, List.lookup_cons]

theorem getField_err :
    Json.getField "err" job.fields =
      if job.lastErr = "" then none else some (.str job.lastErr) := by
  rw [getField_fields]
  simp [fields, List.lookup_append, lookup_omitEmpty, List.lookup_cons]

theorem getField_failedAt :
    Json.getField "failed_at" job.fields =
      if job.failedAt = 0 then none else some (.num (.int job.failedAt.toInt)) := by
  rw [getField_fields]
  simp [fields, List.lookup_append, lookup_omitEmpty, List.lookup_cons]

end Lookup

section Omitted

theorem decodeString_omitted (value : String) :
    decodeString (if value = "" then none else some (.str value)) = some value := by
  split
  · next empty => rw [empty]; rfl
  · rfl

theorem decodeInt64_toInt (value : Int64) :
    decodeInt64 (some (.num (.int value.toInt))) = some value := by
  have range : -2 ^ 63 ≤ value.toInt ∧ value.toInt < 2 ^ 63 := ⟨value.le_toInt, value.toInt_lt⟩
  simp only [decodeInt64, assignInt64, range, and_self, ↓reduceIte, Int64.ofInt_toInt]

theorem decodeInt64_omitted (value : Int64) :
    decodeInt64 (if value = 0 then none else some (.num (.int value.toInt))) = some value := by
  split
  · next empty => rw [empty]; rfl
  · exact decodeInt64_toInt value

theorem decodeBool_omitted (value : Bool) :
    decodeBool (if value then some (.bool value) else none) = some value := by
  cases value <;> rfl

end Omitted

end Job

/-- A field of a document, if it is an object that has one. -/
def Json.field (key : String) : Json → Option Json
  | .obj fields => getField key fields
  | _ => none

/-- The text field of a document, empty when it is missing. -/
def Json.textField (key : String) : Json → Option String
  | .null => some ""
  | .obj fields => Job.decodeString (getField key fields)
  | _ => none

/-- Whether a document is marked as a unique job. -/
def Json.isUnique (json : Json) : Bool := json.field "unique" = some (.bool true)

section Serialized

variable (job : Job)

theorem Job.textField_serialize_name : job.serialize.textField "name" = some job.name := by
  rw [serialize, Json.textField, getField_name, decodeString_omitted]

theorem Job.textField_serialize_id : job.serialize.textField "id" = some job.id := by
  rw [serialize, Json.textField, getField_id, decodeString, assignString]

theorem Job.textField_serialize_uniqueKey :
    job.serialize.textField "unique_key" = some job.uniqueKey := by
  rw [serialize, Json.textField, getField_uniqueKey, decodeString_omitted]

theorem Job.isUnique_serialize : job.serialize.isUnique = job.unique := by
  rw [serialize, Json.isUnique, Json.field, getField_unique]
  cases job.unique <;> rfl

end Serialized

/-- A job has been read from the fields of a document. -/
structure Job.ReadFrom (json : Json) (job : Job) : Prop where
  name : decodeString (json.field "name") = some job.name
  id : decodeString (json.field "id") = some job.id
  enqueuedAt : decodeInt64 (json.field "t") = some job.enqueuedAt
  args : decodeArgs (json.field "args") = some job.args
  unique : decodeBool (json.field "unique") = some job.unique
  uniqueKey : decodeString (json.field "unique_key") = some job.uniqueKey
  fails : decodeInt64 (json.field "fails") = some job.fails
  lastErr : decodeString (json.field "err") = some job.lastErr
  failedAt : decodeInt64 (json.field "failed_at") = some job.failedAt

section ReadFrom

variable {json : Json} {job : Job}

/-- Each field of an object that names every field at most once is decoded by itself. -/
theorem Job.decode_obj {fields : List (String × Json)}
    (unambiguous : Json.UnambiguousNames (fields.map Prod.fst)) :
    decode (.obj fields) = (do
      let name ← decodeString (Json.getField "name" fields)
      let id ← decodeString (Json.getField "id" fields)
      let enqueuedAt ← decodeInt64 (Json.getField "t" fields)
      let args ← decodeArgs (Json.getField "args" fields)
      let unique ← decodeBool (Json.getField "unique" fields)
      let uniqueKey ← decodeString (Json.getField "unique_key" fields)
      let fails ← decodeInt64 (Json.getField "fails" fields)
      let lastErr ← decodeString (Json.getField "err" fields)
      let failedAt ← decodeInt64 (Json.getField "failed_at" fields)
      some { name, id, enqueuedAt, args, unique, uniqueKey, fails, lastErr, failedAt }) := by
  have known : ∀ key ∈ fieldNames, assigned key fields = (Json.getField key fields).toList :=
    fun key member => unambiguous.assigned_eq member
  simp only [fieldNames, List.forall_mem_cons, List.not_mem_nil, false_imp_iff, implies_true,
    and_true] at known
  obtain ⟨name, id, time, args, unique, uniqueKey, fails, err, failedAt⟩ := known
  simp only [decode, name, id, time, args, unique, uniqueKey, fails, err, failedAt,
    foldlM_assignString, foldlM_assignInt64, foldlM_assignBool, foldlM_assignArgs]

/-- An object that names every field at most once decodes to the job that is read from
its fields. -/
theorem Job.decode_obj_iff {fields : List (String × Json)}
    (unambiguous : Json.UnambiguousNames (fields.map Prod.fst)) :
    decode (.obj fields) = some job ↔ job.ReadFrom (.obj fields) := by
  rw [decode_obj unambiguous]
  simp only [Option.bind_eq_bind, Option.bind_eq_some_iff, Option.some.injEq]
  constructor
  · intro decoded
    obtain ⟨name, named, id, identified, t, timed, args, read, unique, flag, key, keyed, count,
      counted, err, message, stamp, failed, rfl⟩ := decoded
    exact ⟨named, identified, timed, read, flag, keyed, counted, message, failed⟩
  · intro read
    exact ⟨_, read.name, _, read.id, _, read.enqueuedAt, _, read.args, _, read.unique, _,
      read.uniqueKey, _, read.fails, _, read.lastErr, _, read.failedAt, rfl⟩

/-- A job decoded from a document that names every field at most once has been read from
its fields. -/
theorem Job.readFrom_of_decode (unambiguous : json.Unambiguous)
    (decoded : Job.decode json = some job) :
    job.ReadFrom json := by
  cases json with
  | null =>
      obtain rfl := Option.some.inj decoded
      exact ⟨rfl, rfl, rfl, rfl, rfl, rfl, rfl, rfl, rfl⟩
  | obj fields => exact (decode_obj_iff unambiguous).mp decoded
  | bool value | num value | str value | arr items => cases decoded

/-- Decoding the encoding of a job returns it with normalised arguments, provided
their numbers are within the range of doubles. -/
theorem Job.decode_serialize (job : Job) (fit : (encodeArgs job.args).numbersFit) :
    decode job.serialize = some job.normalise := by
  have args : decodeArgs (some (encodeArgs job.args)) = some job.normalise.args := by
    obtain ⟨_, _, _, args, _, _, _, _, _⟩ := job
    cases args with
    | none => rfl
    | some fields =>
        have inside : (Json.obj fields).numbersFit = true := fit
        simp only [encodeArgs, decodeArgs, assignArgs, inside, ↓reduceIte, normalise,
          Option.map_some, Option.getD_none, List.nil_append]
  refine (decode_obj_iff job.unambiguousNames_fields).mpr ?_
  constructor
  · rw [Json.field, getField_name, decodeString_omitted, normalise]
  · rw [Json.field, getField_id, normalise, decodeString, assignString]
  · rw [Json.field, getField_t, decodeInt64_toInt, normalise]
  · rw [Json.field, getField_args, args]
  · rw [Json.field, getField_unique, decodeBool_omitted, normalise]
  · rw [Json.field, getField_uniqueKey, decodeString_omitted, normalise]
  · rw [Json.field, getField_fails, decodeInt64_omitted, normalise]
  · rw [Json.field, getField_err, decodeString_omitted, normalise]
  · rw [Json.field, getField_failedAt, decodeInt64_omitted, normalise]

/-- The text fields of a document that decodes as a job are read from its fields. -/
theorem Job.textField_of_decode (decoded : Job.decode json = some job) (key : String) :
    json.textField key = decodeString (json.field key) := by
  cases json with
  | null | obj fields => rfl
  | bool value | num value | str value | arr items => cases decoded

/-- A decoded job carries the text fields of its document. -/
theorem Job.decode_textField (unambiguous : json.Unambiguous)
    (decoded : Job.decode json = some job) :
    json.textField "name" = some job.name ∧ json.textField "id" = some job.id ∧
      json.textField "unique_key" = some job.uniqueKey := by
  have read := readFrom_of_decode unambiguous decoded
  simp only [textField_of_decode decoded]
  exact ⟨read.name, read.id, read.uniqueKey⟩

/-- A decoded job is unique if its document is marked so. -/
theorem Job.decode_unique (unambiguous : json.Unambiguous) (decoded : Job.decode json = some job) :
    json.isUnique = job.unique := by
  have flag := (readFrom_of_decode unambiguous decoded).unique
  rw [Json.isUnique]
  generalize json.field "unique" = field at flag ⊢
  cases field with
  | none =>
      rw [← Option.some.inj flag]
      rfl
  | some value =>
      cases value with
      | bool marked =>
          rw [← Option.some.inj flag]
          cases marked <;> rfl
      | null =>
          rw [← Option.some.inj flag]
          rfl
      | num number | str text | arr items | obj inner => cases flag

end ReadFrom

/-- The bytes of a payload: an encoded document, or bytes that are not JSON. -/
inductive RawJSON where
  | json (document : Json)
  | text (bytes : String)
  deriving DecidableEq

namespace RawJSON

/-- The characters of a payload. -/
def chars : RawJSON → List Char
  | .json document => document.text
  | .text bytes => bytes.toList

instance : Preorder RawJSON := Preorder.lift chars

instance : DecidableLE RawJSON := fun first second =>
  inferInstanceAs (Decidable (first.chars ≤ second.chars))

instance : @Std.Total RawJSON (· ≤ ·) where
  total first second := le_total first.chars second.chars

/-- The text field of a payload, if it is a document that has one. -/
def textField (key : String) : RawJSON → Option String
  | .json document => document.textField key
  | .text _ => none

/-- A field of a payload, if it is a document that has one. -/
def field (key : String) : RawJSON → Option Json
  | .json document => document.field key
  | .text _ => none

/-- Whether a payload is marked as a unique job. -/
def isUnique : RawJSON → Bool
  | .json document => document.isUnique
  | .text _ => false

/-- Whether all numbers of a payload are within the range of doubles. -/
def numbersFit : RawJSON → Bool
  | .json document => document.numbersFit
  | .text _ => true

/-- A payload names every field of a job at most once, and exactly. -/
def Unambiguous : RawJSON → Prop
  | .json document => document.Unambiguous
  | .text _ => True

instance : ∀ raw : RawJSON, Decidable raw.Unambiguous
  | .json document => inferInstanceAs (Decidable document.Unambiguous)
  | .text _ => inferInstanceAs (Decidable True)

/-- The value that marks a unique key without updated arguments. -/
def placeholder : RawJSON := .json (.num (.int 1))

end RawJSON

/-- A job together with the payload and the lists it was taken from. -/
structure FetchedJob extends Job where
  rawJSON : RawJSON
  dequeuedFrom : ListKey
  inProgQueue : ListKey
  deriving DecidableEq

/-- Decode a job fetched from a list. -/
def newJob (rawJSON : RawJSON) (dequeuedFrom inProgQueue : ListKey) : Option FetchedJob :=
  match rawJSON with
  | .json document =>
      (Job.decode document).map fun job =>
        { toJob := job, rawJSON := rawJSON, dequeuedFrom := dequeuedFrom,
          inProgQueue := inProgQueue }
  | .text _ => none

theorem toJob_newJob (document : Json) (dequeuedFrom inProgQueue : ListKey) :
    (newJob (.json document) dequeuedFrom inProgQueue).map FetchedJob.toJob =
      Job.decode document := by
  rw [newJob, Option.map_map]
  exact Option.map_id'

/-- A fetched job decodes its payload and remembers where it came from. -/
theorem newJob_eq_some {rawJSON : RawJSON} {dequeuedFrom inProgQueue : ListKey} {job : FetchedJob}
    (decoded : newJob rawJSON dequeuedFrom inProgQueue = some job) :
    job.rawJSON = rawJSON ∧ job.dequeuedFrom = dequeuedFrom ∧ job.inProgQueue = inProgQueue ∧
      ∃ document, rawJSON = .json document ∧ Job.decode document = some job.toJob := by
  cases rawJSON with
  | json document =>
      obtain ⟨inner, success, rfl⟩ := Option.map_eq_some_iff.mp decoded
      exact ⟨rfl, rfl, rfl, document, rfl, success⟩
  | text bytes => simp only [newJob, reduceCtorEq] at decoded

/-- A fetched job carries the text fields of its payload. -/
theorem newJob_textField {rawJSON : RawJSON} {dequeuedFrom inProgQueue : ListKey}
    {job : FetchedJob} (unambiguous : rawJSON.Unambiguous)
    (decoded : newJob rawJSON dequeuedFrom inProgQueue = some job) :
    rawJSON.textField "name" = some job.name ∧ rawJSON.textField "id" = some job.id ∧
      rawJSON.textField "unique_key" = some job.uniqueKey := by
  obtain ⟨-, -, -, document, rfl, success⟩ := newJob_eq_some decoded
  exact Job.decode_textField unambiguous success

theorem newJob_unique {rawJSON : RawJSON} {dequeuedFrom inProgQueue : ListKey} {job : FetchedJob}
    (unambiguous : rawJSON.Unambiguous)
    (decoded : newJob rawJSON dequeuedFrom inProgQueue = some job) :
    rawJSON.isUnique = job.unique := by
  obtain ⟨-, -, -, document, rfl, success⟩ := newJob_eq_some decoded
  exact Job.decode_unique unambiguous success
