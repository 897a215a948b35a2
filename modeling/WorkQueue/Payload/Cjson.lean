import WorkQueue.Payload.Job

/-! # Payloads inside scripts

Scripts decode a payload into a Lua value, edit its fields and encode it again.
Numbers become doubles and are written with 14 significant digits, of a doubled
name the last field is kept, an empty array becomes an empty table and is written
as an object, and documents nested too deeply or numbers beyond the largest double
cannot be decoded or encoded.

A Lua value is represented by a document whose numbers are doubles. Text fields
pass through decoding, edits of other fields and encoding unchanged
(`Cjson.textField_decode`, `Cjson.textField_encode`).
-/

namespace Cjson

/-- The number of arrays and objects around the innermost value. -/
def depth : Json → ℕ := Json.fold
  { null := 0
    bool := fun _ => 0
    num := fun _ => 0
    str := fun _ => 0
    arr := fun items => items.foldr max 0 + 1
    obj := fun fields => (fields.map Prod.snd).foldr max 0 + 1 }

/-- The deepest nesting that is decoded or encoded. -/
def maxDepth : ℕ := 1000

/-- The Lua value of a document. An empty array is an empty table, and a table has one
value for each name. -/
def decodeValue : Json → Json := Json.fold
  { null := .null
    bool := .bool
    num := fun number => .num (.real (Float64.read number.value))
    str := .str
    arr := fun items => if items = [] then .obj [] else .arr items
    obj := fun fields => .obj (Json.lastFields fields) }

/-- A number in 14 significant digits, in plain digits if it is an integer that
short. -/
def encodeNumber (value : ℚ) : JsonNumber :=
  let decimal := Rounding.significant 10 14 none value
  if decimal.den = 1 ∧ |decimal| < 10 ^ 14 then .int decimal.num else .real decimal

/-- The document written for a Lua value. -/
def encodeValue : Json → Json := Json.fold
  { null := .null
    bool := .bool
    num := fun number => .num (encodeNumber number.value)
    str := .str
    arr := .arr
    obj := .obj }

/-- Decode a payload. -/
def decode : RawJSON → Option Json
  | .json document => if depth document ≤ maxDepth then some (decodeValue document) else none
  | .text _ => none

/-- Encode a Lua value. -/
def encode (value : Json) : Option RawJSON :=
  if value.numbersFit ∧ depth value ≤ maxDepth then some (.json (encodeValue value)) else none

/-- Read a field of a Lua value. Tables and strings have fields, other values
raise an error. -/
def index (key : String) : Json → Option (Option Json)
  | .obj fields => some (Json.getField key fields)
  | .arr _ => some none
  | .str _ => some none
  | _ => none

/-- What a value adds to a concatenation. Only strings and numbers concatenate. -/
def concat : Option Json → Option String
  | some (.str value) => some value
  | some (.num number) => some (String.ofList (encodeNumber number.value).text)
  | _ => none

/-- Set a field of a table. -/
def setField (key : String) (field : Json) : Json → Json
  | .obj fields => .obj (Json.setField key field fields)
  | value => value

/-- Remove a field of a table. -/
def removeField (key : String) : Json → Json
  | .obj fields => .obj (Json.removeField key fields)
  | value => value

/-- The Lua number of an integer argument. -/
def toNumber (value : Int64) : Json := .num (.real (Float64.read value.toInt))

section Values

theorem decodeValue_obj (fields : List (String × Json)) :
    decodeValue (.obj fields) =
      .obj ((Json.lastFields fields).map fun field => (field.1, decodeValue field.2)) := by
  rw [decodeValue, Json.fold_obj]
  exact congrArg Json.obj (Json.lastFields_map_values _ fields)

theorem decodeValue_arr (items : List Json) :
    decodeValue (.arr items) = if items = [] then .obj [] else .arr (items.map decodeValue) := by
  rw [decodeValue, Json.fold_arr]
  simp only [List.map_eq_nil_iff]

theorem encodeValue_obj (fields : List (String × Json)) :
    encodeValue (.obj fields) = .obj (fields.map fun field => (field.1, encodeValue field.2)) := by
  rw [encodeValue, Json.fold_obj]

theorem encodeValue_arr (items : List Json) :
    encodeValue (.arr items) = .arr (items.map encodeValue) := by
  rw [encodeValue, Json.fold_arr]

/-- Decoding keeps text and turns nothing else into text. -/
theorem decodeString_decodeValue (field : Option Json) :
    Job.decodeString (field.map decodeValue) = Job.decodeString field := by
  cases field with
  | none => rfl
  | some value =>
      cases value with
      | arr items =>
          rw [Option.map_some, decodeValue_arr]
          split <;> rfl
      | obj fields =>
          rw [Option.map_some, decodeValue_obj]
          rfl
      | null | bool value | num value | str value => rfl

/-- Encoding keeps text and turns nothing else into text. -/
theorem decodeString_encodeValue (field : Option Json) :
    Job.decodeString (field.map encodeValue) = Job.decodeString field := by
  cases field with
  | none => rfl
  | some value =>
      cases value with
      | arr items =>
          rw [Option.map_some, encodeValue_arr]
          rfl
      | obj fields =>
          rw [Option.map_some, encodeValue_obj]
          rfl
      | null | bool value | num value | str value => rfl

theorem textField_encodeValue (key : String) (value : Json) :
    (encodeValue value).textField key = value.textField key := by
  cases value with
  | obj fields =>
      rw [encodeValue_obj, Json.textField, Json.textField, Json.getField_map_values,
        decodeString_encodeValue]
  | arr items =>
      rw [encodeValue_arr]
      rfl
  | null | bool value | num value | str value => rfl

theorem field_decodeValue (key : String) (value : Json) :
    (decodeValue value).field key = (value.field key).map decodeValue := by
  cases value with
  | obj fields =>
      rw [decodeValue_obj, Json.field, Json.getField_map_values, Json.getField_lastFields,
        Json.field]
  | arr items =>
      rw [decodeValue_arr]
      split <;> rfl
  | null | bool value | num value | str value => rfl

theorem field_encodeValue (key : String) (value : Json) :
    (encodeValue value).field key = (value.field key).map encodeValue := by
  cases value with
  | obj fields => rw [encodeValue_obj, Json.field, Json.getField_map_values, Json.field]
  | arr items =>
      rw [encodeValue_arr]
      rfl
  | null | bool value | num value | str value => rfl

theorem decodeValue_eq_bool {value : Json} {flag : Bool} :
    decodeValue value = .bool flag ↔ value = .bool flag := by
  cases value with
  | obj fields => rw [decodeValue_obj]; simp
  | arr items =>
      rw [decodeValue_arr]
      split <;> simp
  | null | num value | str value => exact ⟨(nomatch ·), (nomatch ·)⟩
  | bool value => rfl

theorem encodeValue_eq_bool {value : Json} {flag : Bool} :
    encodeValue value = .bool flag ↔ value = .bool flag := by
  cases value with
  | obj fields => rw [encodeValue_obj]; simp
  | arr items => rw [encodeValue_arr]; simp
  | null | num value | str value => exact ⟨(nomatch ·), (nomatch ·)⟩
  | bool value => rfl

end Values

section TextFields

theorem field_setField {key other : String} (different : key ≠ other) (added value : Json) :
    (setField other added value).field key = value.field key := by
  cases value with
  | obj fields => exact Json.getField_setField_of_ne different added fields
  | _ => rfl

theorem field_removeField {key other : String} (different : key ≠ other) (value : Json) :
    (removeField other value).field key = value.field key := by
  cases value with
  | obj fields => exact Json.getField_removeField_of_ne different fields
  | _ => rfl

theorem field_removeField_self (key : String) (value : Json) :
    (removeField key value).field key = none := by
  cases value with
  | obj fields => exact Json.getField_removeField_self key fields
  | _ => rfl

/-- Only documents that are not too deep are decoded. -/
theorem of_decode {raw : RawJSON} {value : Json} (decoded : decode raw = some value) :
    ∃ document, raw = .json document ∧ depth document ≤ maxDepth ∧
      decodeValue document = value := by
  cases raw with
  | text bytes => cases decoded
  | json document =>
      obtain ⟨shallow, same⟩ := Option.ite_none_right_eq_some.mp decoded
      exact ⟨document, rfl, shallow, Option.some.inj same⟩

theorem of_encode {raw : RawJSON} {value : Json} (encoded : encode value = some raw) :
    (value.numbersFit ∧ depth value ≤ maxDepth) ∧ .json (encodeValue value) = raw := by
  obtain ⟨fit, same⟩ := Option.ite_none_right_eq_some.mp encoded
  exact ⟨fit, Option.some.inj same⟩

theorem field_decode {raw : RawJSON} {value : Json} (decoded : decode raw = some value)
    (key : String) : value.field key = (raw.field key).map decodeValue := by
  obtain ⟨document, rfl, -, rfl⟩ := of_decode decoded
  exact field_decodeValue key document

theorem field_encode {raw : RawJSON} {value : Json} (encoded : encode value = some raw)
    (key : String) : raw.field key = (value.field key).map encodeValue := by
  obtain ⟨-, rfl⟩ := of_encode encoded
  exact field_encodeValue key value

theorem isUnique_decode {raw : RawJSON} {value : Json} (decoded : decode raw = some value) :
    value.isUnique = raw.isUnique := by
  obtain ⟨document, rfl, -, rfl⟩ := of_decode decoded
  simp only [RawJSON.isUnique, Json.isUnique, field_decodeValue, Option.map_eq_some_iff,
    decodeValue_eq_bool, exists_eq_right]

theorem isUnique_encode {raw : RawJSON} {value : Json} (encoded : encode value = some raw) :
    raw.isUnique = value.isUnique := by
  obtain ⟨-, rfl⟩ := of_encode encoded
  simp only [RawJSON.isUnique, Json.isUnique, field_encodeValue, Option.map_eq_some_iff,
    encodeValue_eq_bool, exists_eq_right]

theorem textField_encode {key : String} {value : Json} {raw : RawJSON}
    (encoded : encode value = some raw) : raw.textField key = value.textField key := by
  obtain ⟨-, rfl⟩ := of_encode encoded
  exact textField_encodeValue key value

theorem textField_setField {key other : String} (different : key ≠ other) (field value : Json) :
    (setField other field value).textField key = value.textField key := by
  cases value with
  | obj fields =>
      rw [setField, Json.textField, Json.textField, Json.getField_setField_of_ne different]
  | null | bool value | num value | str value | arr items => rfl

theorem textField_removeField {key other : String} (different : key ≠ other) (value : Json) :
    (removeField other value).textField key = value.textField key := by
  cases value with
  | obj fields =>
      rw [removeField, Json.textField, Json.textField, Json.getField_removeField_of_ne different]
  | null | bool value | num value | str value | arr items => rfl

/-- Decoding keeps the text fields of a document. -/
theorem textField_decode {key text : String} {raw : RawJSON} {value : Json}
    (decoded : decode raw = some value) (present : raw.textField key = some text) :
    value.textField key = some text := by
  obtain ⟨document, rfl, -, rfl⟩ := of_decode decoded
  cases document with
  | obj fields =>
      rw [decodeValue_obj, Json.textField, Json.getField_map_values, Json.getField_lastFields,
        decodeString_decodeValue]
      exact present
  | null | bool flag | num number | str string => exact present
  | arr items => simp only [RawJSON.textField, Json.textField, reduceCtorEq] at present

/-- A nonempty text field is found by indexing. -/
theorem index_eq_of_textField {key text : String} {value : Json}
    (present : value.textField key = some text) (nonempty : text ≠ "") :
    index key value = some (some (.str text)) := by
  cases value with
  | obj fields =>
      rw [index]
      rw [Json.textField] at present
      cases field : Json.getField key fields with
      | none =>
          rw [field, Job.decodeString] at present
          exact (nonempty (Option.some.inj present).symm).elim
      | some json =>
          rw [field] at present
          cases json with
          | str string =>
              rw [Job.decodeString, Job.assignString] at present
              rw [Option.some.inj present]
          | null =>
              rw [Job.decodeString, Job.assignString] at present
              exact (nonempty (Option.some.inj present).symm).elim
          | bool flag | num number | arr items | obj inner =>
              simp only [Job.decodeString, Job.assignString, reduceCtorEq] at present
  | null =>
      rw [Json.textField] at present
      exact (nonempty (Option.some.inj present).symm).elim
  | bool flag | num number | str string | arr items =>
      simp only [Json.textField, reduceCtorEq] at present

/-- A text found by indexing is the text field. -/
theorem textField_of_index {key text : String} {value : Json}
    (indexed : index key value = some (some (.str text))) : value.textField key = some text := by
  cases value with
  | obj fields =>
      rw [index] at indexed
      rw [Json.textField, Option.some.inj indexed]
      rfl
  | null | bool flag | num number => cases indexed
  | str string | arr items => simp only [index, Option.some.injEq, reduceCtorEq] at indexed

/-- A field that concatenates as text is that text. -/
theorem concat_index_eq {key text joined : String} {value : Json} {field : Option Json}
    (present : value.textField key = some text) (indexed : index key value = some field)
    (concatenated : concat field = some joined) : joined = text := by
  cases value with
  | obj fields =>
      rw [index] at indexed
      rw [Json.textField, Option.some.inj indexed] at present
      cases field with
      | none => simp only [concat, reduceCtorEq] at concatenated
      | some json =>
          cases json with
          | str string =>
              rw [concat] at concatenated
              rw [Job.decodeString, Job.assignString] at present
              exact (Option.some.inj concatenated).symm.trans (Option.some.inj present)
          | num number => simp only [Job.decodeString, Job.assignString, reduceCtorEq] at present
          | null | bool flag | arr items | obj inner =>
              simp only [concat, reduceCtorEq] at concatenated
  | null | bool flag | num number => simp only [index, reduceCtorEq] at indexed
  | str string | arr items => simp only [Json.textField, reduceCtorEq] at present

end TextFields

section Unambiguous

variable {value : Json}

theorem unambiguous_decodeValue (unambiguous : value.Unambiguous) :
    (decodeValue value).Unambiguous := by
  cases value with
  | obj fields =>
      rw [decodeValue_obj]
      refine Json.UnambiguousNames.sublist unambiguous ?_
      rw [List.map_map]
      exact (Json.lastFields_sublist fields).map Prod.fst
  | arr items =>
      rw [decodeValue_arr]
      split
      · exact Json.unambiguousNames_fieldNames.sublist (List.nil_sublist _)
      · trivial
  | null | bool value | num value | str value => trivial

theorem unambiguous_encodeValue (unambiguous : value.Unambiguous) :
    (encodeValue value).Unambiguous := by
  cases value with
  | obj fields =>
      rw [encodeValue_obj]
      refine Json.UnambiguousNames.sublist unambiguous ?_
      rw [List.map_map]
      exact .refl _
  | arr items =>
      rw [encodeValue_arr]
      trivial
  | null | bool value | num value | str value => trivial

theorem unambiguous_setField (unambiguous : value.Unambiguous) {key : String}
    (known : key ∈ Job.fieldNames)
    (added : Json) : (setField key added value).Unambiguous := by
  cases value with
  | obj fields => exact Json.unambiguousNames_setField unambiguous known added
  | _ => exact unambiguous

theorem unambiguous_removeField (unambiguous : value.Unambiguous) (key : String) :
    (removeField key value).Unambiguous := by
  cases value with
  | obj fields => exact Json.unambiguousNames_removeField unambiguous key
  | _ => exact unambiguous

theorem unambiguous_decode {raw : RawJSON} (decoded : decode raw = some value)
    (unambiguous : raw.Unambiguous) : value.Unambiguous := by
  obtain ⟨document, rfl, -, rfl⟩ := of_decode decoded
  exact unambiguous_decodeValue unambiguous

theorem unambiguous_encode {raw : RawJSON} (encoded : encode value = some raw)
    (unambiguous : value.Unambiguous) : raw.Unambiguous := by
  obtain ⟨-, rfl⟩ := of_encode encoded
  exact unambiguous_encodeValue unambiguous

end Unambiguous

section Encodable

theorem depth_obj (fields : List (String × Json)) :
    depth (.obj fields) = (fields.map fun field => depth field.2).foldr max 0 + 1 := by
  rw [depth, Json.fold_obj]
  simp only [List.map_map]
  rfl

theorem depth_arr (items : List Json) : depth (.arr items) = (items.map depth).foldr max 0 + 1 := by
  rw [depth, Json.fold_arr]

private theorem foldr_max_le {depths : List ℕ} {bound : ℕ} :
    depths.foldr max 0 ≤ bound ↔ ∀ depth ∈ depths, depth ≤ bound := by
  induction depths with
  | nil => simp
  | cons depth depths ih => simp [ih]

private theorem le_foldr_max {depths : List ℕ} {depth : ℕ} (member : depth ∈ depths) :
    depth ≤ depths.foldr max 0 := foldr_max_le.mp le_rfl depth member

theorem depth_obj_le {fields : List (String × Json)} :
    depth (.obj fields) ≤ maxDepth ↔ ∀ field ∈ fields, depth field.2 < maxDepth := by
  rw [depth_obj, Nat.add_one_le_iff, maxDepth, Nat.lt_succ_iff, foldr_max_le]
  simp only [List.mem_map, forall_exists_index, and_imp, forall_apply_eq_imp_iff₂,
    Nat.lt_succ_iff]

/-- Decoding does not nest deeper. -/
theorem depth_decodeValue_le (json : Json) : depth (decodeValue json) ≤ depth json := by
  induction json using Json.documentInduction with
  | null | bool value | num value | str value => exact le_rfl
  | arr items ih =>
      rw [decodeValue_arr]
      by_cases empty : items = []
      · rw [if_pos empty, empty]
        exact le_rfl
      · rw [if_neg empty, depth_arr, depth_arr, List.map_map]
        refine Nat.succ_le_succ (foldr_max_le.mpr fun inner member => ?_)
        obtain ⟨item, present, rfl⟩ := List.mem_map.mp member
        exact (ih item present).trans (le_foldr_max (List.mem_map_of_mem present))
  | obj fields ih =>
      rw [decodeValue_obj, depth_obj, depth_obj, List.map_map]
      refine Nat.succ_le_succ (foldr_max_le.mpr fun inner member => ?_)
      obtain ⟨field, last, rfl⟩ := List.mem_map.mp member
      have present := (Json.lastFields_sublist fields).subset last
      exact (ih field present).trans
        (le_foldr_max (List.mem_map_of_mem (f := fun field => depth field.2) present))

/-- Encoding does not change the nesting. -/
theorem depth_encodeValue (json : Json) : depth (encodeValue json) = depth json := by
  induction json using Json.documentInduction with
  | null | bool value | num value | str value => rfl
  | arr items ih =>
      rw [encodeValue_arr, depth_arr, depth_arr, List.map_map]
      exact congrArg (fun depths => List.foldr max 0 depths + 1) (List.map_congr_left ih)
  | obj fields ih =>
      rw [encodeValue_obj, depth_obj, depth_obj, List.map_map]
      exact congrArg (fun depths => List.foldr max 0 depths + 1) (List.map_congr_left ih)

/-- Decoding keeps numbers within the range of doubles. -/
theorem numbersFit_decodeValue {json : Json} (fit : json.numbersFit) :
    (decodeValue json).numbersFit := by
  induction json using Json.documentInduction with
  | null | bool value | str value => rfl
  | num value => exact (Float64.fits_read value.value).trans fit
  | arr items ih =>
      rw [decodeValue_arr]
      by_cases empty : items = []
      · rw [if_pos empty]
        rfl
      · rw [Json.numbersFit_arr, List.all_eq_true] at fit
        rw [if_neg empty, Json.numbersFit_arr, List.all_map, List.all_eq_true]
        exact fun item member => ih item member (fit item member)
  | obj fields ih =>
      rw [Json.numbersFit_obj, List.all_eq_true] at fit
      rw [decodeValue_obj, Json.numbersFit_obj, List.all_map, List.all_eq_true]
      intro field member
      have present := (Json.lastFields_sublist fields).subset member
      exact ih field present (fit field present)

/-- A table whose fields can be encoded. -/
def Encodable : Json → Prop
  | .obj fields => ∀ field ∈ fields, field.2.numbersFit ∧ depth field.2 < maxDepth
  | _ => False

theorem Encodable.encode_eq {value : Json} (encodable : Encodable value) :
    encode value = some (.json (encodeValue value)) := by
  cases value with
  | obj fields =>
      have fit : (Json.obj fields).numbersFit = true := by
        rw [Json.numbersFit_obj, List.all_eq_true]
        exact fun field member => (encodable field member).1
      have shallow : depth (.obj fields) ≤ maxDepth :=
        depth_obj_le.mpr fun field member => (encodable field member).2
      exact if_pos ⟨fit, shallow⟩
  | _ => exact encodable.elim

theorem Encodable.exists_encode {value : Json} (encodable : Encodable value) :
    ∃ raw, encode value = some raw := ⟨_, encodable.encode_eq⟩

theorem Encodable.removeField {value : Json} (encodable : Encodable value) (key : String) :
    Encodable (Cjson.removeField key value) := by
  cases value with
  | obj fields =>
      intro field member
      exact encodable field (List.mem_filter.mp member).1
  | _ => exact encodable

theorem Encodable.setField {value : Json} (encodable : Encodable value) (key : String)
    {added : Json} (fit : added.numbersFit) (shallow : depth added < maxDepth) :
    Encodable (Cjson.setField key added value) := by
  cases value with
  | obj fields =>
      intro field member
      rcases List.mem_cons.mp member with rfl | kept
      · exact ⟨fit, shallow⟩
      · exact encodable field (List.mem_filter.mp kept).1
  | _ => exact encodable

theorem numbersFit_toNumber (value : Int64) : (toNumber value).numbersFit := by
  change Float64.fits (Float64.read value.toInt) = true
  rw [Float64.fits_read]
  exact Float64.fits_int64 value

theorem depth_toNumber (value : Int64) : depth (toNumber value) < maxDepth := by
  change 0 < maxDepth
  decide

/-- A decoded table can be encoded when the numbers of the payload are doubles. -/
theorem encodable_of_decode {raw : RawJSON} {fields : List (String × Json)}
    (decoded : decode raw = some (.obj fields))
    (fit : ∀ document, raw = .json document → document.numbersFit) : Encodable (.obj fields) := by
  obtain ⟨document, rfl, shallow, value⟩ := of_decode decoded
  have numbers : (Json.obj fields).numbersFit := by
    rw [← value]
    exact numbersFit_decodeValue (fit document rfl)
  have bounded : depth (.obj fields) ≤ maxDepth := by
    rw [← value]
    exact (depth_decodeValue_le document).trans shallow
  rw [Json.numbersFit_obj, List.all_eq_true] at numbers
  exact fun field member => ⟨numbers field member, depth_obj_le.mp bounded field member⟩

/-- A script finds the name of a named payload and can write the payload back. -/
theorem index_and_encodable_of_decode {raw : RawJSON} {value : Json} {name : String}
    (decoded : decode raw = some value) (present : raw.textField "name" = some name)
    (nonempty : name ≠ "") (fit : ∀ document, raw = .json document → document.numbersFit) :
    (index "name" value).bind concat = some name ∧ Encodable value := by
  have indexed := index_eq_of_textField (textField_decode decoded present) nonempty
  refine ⟨by rw [indexed]; rfl, ?_⟩
  cases value with
  | obj fields => exact encodable_of_decode decoded fit
  | null | bool value | num value => cases indexed
  | str value | arr items => simp only [index, Option.some.injEq, reduceCtorEq] at indexed

end Encodable

end Cjson
