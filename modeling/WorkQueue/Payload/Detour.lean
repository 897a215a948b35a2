import WorkQueue.Payload.Cjson

/-! # What a detour through a script preserves

A payload that a script decodes and encodes again is not quite the same document: numbers
lose the digits after the fourteenth, large integers are written with an exponent, empty
arrays become objects, and of a doubled name only the last field is left. What a decoder
makes of the arguments is the same exactly when none of this happens to them
(`Cjson.normalise_detour_iff`), and an integer field is read back exactly when it has at
most fourteen digits (`Cjson.decodeInt64_detour`).
-/

namespace Json

theorem normalise_arr (items : List Json) :
    (Json.arr items).normalise = .arr (items.map normalise) := by
  rw [normalise, fold_arr]

/-- Sorting goes by the names of fields alone. -/
theorem sortFields_map {Value Result : Type} (transform : Value → Result)
    (fields : List (String × Value)) :
    sortFields (fields.map fun field => (field.1, transform field.2)) =
      (sortFields fields).map fun field => (field.1, transform field.2) :=
  (List.map_insertionSort (fun first second : String × Value => first.1.toList ≤ second.1.toList)
    (fun first second : String × Result => first.1.toList ≤ second.1.toList)
    (fun field => (field.1, transform field.2)) fields fun _ _ _ _ => Iff.rfl).symm

theorem normalise_obj (fields : List (String × Json)) :
    (Json.obj fields).normalise =
      .obj ((sortFields (lastFields fields)).map fun field => (field.1, field.2.normalise)) := by
  rw [normalise, fold_obj]
  dsimp only
  rw [lastFields_map_values, sortFields_map]

theorem mem_sortFields {Value : Type} {fields : List (String × Value)} {field : String × Value} :
    field ∈ sortFields fields ↔ field ∈ fields := (List.perm_insertionSort _ _).mem_iff

end Json

namespace Cjson

/-- A document after a script has decoded and encoded it. -/
def detour (json : Json) : Json := encodeValue (decodeValue json)

/-- Whether all numbers of a document read the same after they have been written with
fourteen digits, and no array is empty. A field whose name is doubled later does not matter. -/
def survives : Json → Bool := Json.fold
  { null := true
    bool := fun _ => true
    num := fun number => Float64.read (Rounding.significant 10 14 none
      (Float64.read number.value)) = Float64.read number.value
    str := fun _ => true
    arr := fun items => items ≠ [] && items.all id
    obj := fun fields => (Json.lastFields fields).all fun field => field.2 }

/-- An integer of at most fourteen digits, which is written in plain digits. -/
def Short (value : Int64) : Prop := |value.toInt| < 10 ^ 14

instance (value : Int64) : Decidable (Short value) :=
  inferInstanceAs (Decidable (|value.toInt| < 10 ^ 14))

section Documents

theorem survives_arr (items : List Json) :
    survives (.arr items) ↔ items ≠ [] ∧ ∀ item ∈ items, survives item := by
  rw [survives, Json.fold_arr]
  simp

theorem survives_obj (fields : List (String × Json)) :
    survives (.obj fields) ↔ ∀ field ∈ Json.lastFields fields, survives field.2 := by
  rw [survives, Json.fold_obj]
  dsimp only
  rw [Json.lastFields_map_values]
  simp

theorem detour_arr {items : List Json} (nonempty : items ≠ []) :
    detour (.arr items) = .arr (items.map detour) := by
  rw [detour, decodeValue_arr, if_neg nonempty, encodeValue_arr, List.map_map]
  rfl

theorem detour_obj (fields : List (String × Json)) :
    detour (.obj fields) =
      .obj ((Json.lastFields fields).map fun field => (field.1, detour field.2)) := by
  rw [detour, decodeValue_obj, encodeValue_obj, List.map_map]
  rfl

theorem value_encodeNumber (value : ℚ) :
    (encodeNumber value).value = Rounding.significant 10 14 none value := by
  unfold encodeNumber
  dsimp only
  split
  · next plain => exact Rat.coe_int_num_of_den_eq_one plain.1
  · rfl

/-- A decoder makes the same of a document after a detour if and only if all of it
survives. -/
theorem normalise_detour_iff (json : Json) :
    (detour json).normalise = json.normalise ↔ survives json := by
  induction json using Json.documentInduction with
  | null | bool value | str value => exact iff_of_true rfl rfl
  | num number =>
      have kept : survives (.num number) ↔ Float64.read (encodeNumber
          (Float64.read number.value)).value = Float64.read number.value := by
        rw [value_encodeNumber]
        exact decide_eq_true_iff
      rw [kept]
      refine ⟨fun same => ?_, fun same => ?_⟩
      · exact Float64.encode_read_injective (Json.num.inj same)
      · exact congrArg (fun value => Json.num (Float64.encode value)) same
  | arr items ih =>
      rw [survives_arr]
      by_cases empty : items = []
      · subst empty
        exact iff_of_false (fun same => nomatch same) (fun kept => kept.1 rfl)
      · rw [detour_arr empty, Json.normalise_arr, Json.normalise_arr, List.map_map,
          Json.arr.injEq, List.map_inj_left]
        exact ⟨fun same => ⟨empty, fun item member => (ih item member).mp (same item member)⟩,
          fun kept item member => (ih item member).mpr (kept.2 item member)⟩
  | obj fields ih =>
      rw [survives_obj, detour_obj, Json.normalise_obj, Json.normalise_obj,
        Json.lastFields_map_values, Json.lastFields_lastFields, Json.sortFields_map, List.map_map,
        Json.obj.injEq, List.map_inj_left]
      simp only [Function.comp_apply, Prod.mk.injEq, true_and, Json.mem_sortFields]
      exact forall₂_congr fun field last => ih field ((Json.lastFields_sublist fields).subset last)

/-- Writing a number that is not beyond the largest double stays within the range. -/
theorem fits_encodeNumber {value : ℚ} (fit : Float64.fits value) :
    Float64.fits (encodeNumber value).value := by
  rw [value_encodeNumber]
  apply Float64.fits_significant
  by_contra beyond
  have reached : ((2 : ℕ) : ℚ) ^ (1024 : ℤ) ≤ |value| := by exact_mod_cast not_lt.mp beyond
  have read : ((2 : ℕ) : ℚ) ^ (1024 : ℤ) ≤ |Float64.read value| := by
    apply Rounding.le_abs_significant (by decide) (by decide) reached
    intro bound member
    rw [← Option.mem_some_iff.mp member]
    decide
  exact absurd (of_decide_eq_true fit) (not_lt.mpr (by exact_mod_cast read))

/-- Encoding stays within the range of doubles. -/
theorem numbersFit_encodeValue {value : Json} (fit : value.numbersFit) :
    (encodeValue value).numbersFit := by
  induction value using Json.documentInduction with
  | null | bool value | str value => rfl
  | num number => exact fits_encodeNumber fit
  | arr items ih =>
      rw [Json.numbersFit_arr, List.all_eq_true] at fit
      rw [encodeValue_arr, Json.numbersFit_arr, List.all_map, List.all_eq_true]
      exact fun item member => ih item member (fit item member)
  | obj fields ih =>
      rw [Json.numbersFit_obj, List.all_eq_true] at fit
      rw [encodeValue_obj, Json.numbersFit_obj, List.all_map, List.all_eq_true]
      exact fun field member => ih field member (fit field member)

/-- A detour stays within the range of doubles. -/
theorem numbersFit_detour {json : Json} (fit : json.numbersFit) : (detour json).numbersFit :=
  numbersFit_encodeValue (numbersFit_decodeValue fit)

/-- Decoding into maps and doubles stays within the range of doubles. -/
theorem numbersFit_normalise {json : Json} (fit : json.numbersFit) :
    json.normalise.numbersFit := by
  induction json using Json.documentInduction with
  | null | bool value | str value => rfl
  | num number =>
      change Float64.fits (Float64.encode (Float64.read number.value)).value = true
      rw [Float64.value_encode, ← Float64.fits_read, Float64.read_shortest, Float64.fits_read]
      exact fit
  | arr items ih =>
      rw [Json.numbersFit_arr, List.all_eq_true] at fit
      rw [Json.normalise_arr, Json.numbersFit_arr, List.all_map, List.all_eq_true]
      exact fun item member => ih item member (fit item member)
  | obj fields ih =>
      rw [Json.numbersFit_obj, List.all_eq_true] at fit
      rw [Json.normalise_obj, Json.numbersFit_obj, List.all_map, List.all_eq_true]
      intro field member
      have listed := (Json.lastFields_sublist fields).subset (Json.mem_sortFields.mp member)
      exact ih field listed (fit field listed)

end Documents

section Fields

theorem decodeString_detour (field : Option Json) :
    Job.decodeString (field.map detour) = Job.decodeString field := by
  calc Job.decodeString (field.map detour)
      = Job.decodeString ((field.map decodeValue).map encodeValue) := by rw [Option.map_map]; rfl
    _ = Job.decodeString field := by rw [decodeString_encodeValue, decodeString_decodeValue]

/-- The arguments of a job are read back after a detour if and only if they survive. -/
theorem decodeArgs_detour_iff (job : Job) (fit : (Job.encodeArgs job.args).numbersFit) :
    Job.decodeArgs (some (detour (Job.encodeArgs job.args))) = some job.normalise.args ↔
      survives (Job.encodeArgs job.args) := by
  obtain ⟨_, _, _, args, _, _, _, _, _⟩ := job
  cases args with
  | none => exact iff_of_true rfl rfl
  | some fields =>
      have normal : (detour (.obj fields)).normalise = (Json.obj fields).normalise ↔
          Json.sortFields (Json.lastFields
            (((Json.lastFields fields).map fun field => (field.1, detour field.2)).map
              fun field => (field.1, field.2.normalise))) =
          Json.sortFields
            (Json.lastFields (fields.map fun field => (field.1, field.2.normalise))) := by
        rw [detour_obj, Json.normalise_obj, Json.normalise_obj, Json.obj.injEq,
          Json.lastFields_map_values Json.normalise, Json.lastFields_map_values Json.normalise,
          Json.sortFields_map Json.normalise, Json.sortFields_map Json.normalise]
      have settled := normal.symm.trans (normalise_detour_iff (.obj fields))
      simp only [Job.encodeArgs, detour_obj, Job.decodeArgs, Job.assignArgs, Job.normalise,
        Option.map_some, Option.getD_none, List.nil_append]
      constructor
      · intro decoded
        split at decoded
        · exact settled.mp (Option.some.inj (Option.some.inj decoded))
        · cases decoded
      · intro kept
        have inside : (detour (.obj fields)).numbersFit := numbersFit_detour fit
        rw [detour_obj] at inside
        rw [if_pos inside, settled.mpr kept]

private theorem le_abs_read {value : ℤ} (large : 10 ^ 14 ≤ |value|) :
    (10 : ℚ) ^ 14 ≤ |Float64.read value| := by
  by_cases short : |value| < 2 ^ 53
  · rw [Float64.read_intCast short]
    exact_mod_cast large
  · have reached : ((2 : ℕ) : ℚ) ^ (53 : ℤ) ≤ |(value : ℚ)| := by exact_mod_cast not_lt.mp short
    refine le_trans ?_ (Rounding.le_abs_significant (by decide) (by decide) reached ?_)
    · norm_num
    · intro bound member
      rw [← Option.mem_some_iff.mp member]
      decide

/-- An integer field is read back after a detour if and only if it is short. -/
theorem decodeInt64_detour (value : Int64) :
    Job.decodeInt64 (some (encodeValue (toNumber value))) =
      if Short value then some value else none := by
  change Job.decodeInt64 (some (.num (encodeNumber (Float64.read value.toInt)))) = _
  split
  · next short =>
      have exact : Rounding.significant 10 14 none (value.toInt : ℚ) = value.toInt :=
        Rounding.significant_eq_self (by decide) value.toInt 0 (by simp) (by exact_mod_cast short)
          fun _ absent => (Option.not_mem_none _ absent).elim
      have written : encodeNumber (Float64.read value.toInt) = .int value.toInt := by
        rw [Float64.read_intCast (short.trans (by norm_num)), encodeNumber, exact]
        refine if_pos ⟨Rat.den_intCast _, ?_⟩
        exact_mod_cast short
      rw [written, Job.decodeInt64_toInt]
  · next long =>
      have reached : (10 : ℚ) ^ 14 ≤
          |Rounding.significant 10 14 none (Float64.read value.toInt)| := by
        have read : ((10 : ℕ) : ℚ) ^ (14 : ℤ) ≤ |Float64.read value.toInt| := by
          exact_mod_cast le_abs_read (not_lt.mp long)
        have bound := Rounding.le_abs_significant (by decide) (by decide : 0 < 14) read
          fun _ absent => (Option.not_mem_none _ absent).elim
        exact_mod_cast bound
      rw [encodeNumber, if_neg fun plain => absurd plain.2 (not_lt.mpr reached)]
      rfl

theorem decodeInt64_detour_omitted (value : Int64) :
    Job.decodeInt64 ((if value = 0 then none else some (.num (.int value.toInt))).map detour) =
      if Short value then some value else none := by
  split
  · next zero =>
      subst zero
      rfl
  · exact decodeInt64_detour value

theorem decodeBool_detour_omitted (value : Bool) :
    Job.decodeBool ((if value then some (.bool value) else none).map detour) = some value := by
  cases value <;> rfl

/-- A short integer field of any document is read back after a detour. -/
theorem decodeInt64_detour_of_short {field : Option Json} {value : Int64}
    (decoded : Job.decodeInt64 field = some value) (short : Short value) :
    Job.decodeInt64 (field.map detour) = some value := by
  cases field with
  | none => exact decoded
  | some json =>
      cases json with
      | null => exact decoded
      | num number =>
          cases number with
          | int plain =>
              simp only [Job.decodeInt64, Job.assignInt64] at decoded
              split at decoded
              · next range =>
                  obtain rfl := Option.some.inj decoded
                  have same : (Int64.ofInt plain).toInt = plain :=
                    Int64.toInt_ofInt_of_le range.1 range.2
                  have read := decodeInt64_detour (Int64.ofInt plain)
                  rw [if_pos short, toNumber, same] at read
                  exact read
              · cases decoded
          | real value => cases decoded
      | bool flag | str text | arr items | obj fields => cases decoded

theorem decodeBool_detour {field : Option Json} {value : Bool}
    (decoded : Job.decodeBool field = some value) :
    Job.decodeBool (field.map detour) = some value := by
  cases field with
  | none => exact decoded
  | some json =>
      cases json with
      | null | bool flag => exact decoded
      | num number | str text | arr items | obj fields => cases decoded

/-- Arguments can still be decoded after a detour, whatever they are then. -/
theorem decodeArgs_detour {field : Option Json} {args : Args}
    (decoded : Job.decodeArgs field = some args) :
    ∃ changed, Job.decodeArgs (field.map detour) = some changed := by
  cases field with
  | none => exact ⟨_, decoded⟩
  | some json =>
      cases json with
      | null => exact ⟨_, decoded⟩
      | obj fields =>
          simp only [Job.decodeArgs, Job.assignArgs] at decoded
          split at decoded
          · next fit =>
              have inside := numbersFit_detour fit
              rw [detour_obj] at inside
              rw [Option.map_some, detour_obj, Job.decodeArgs, Job.assignArgs, if_pos inside]
              exact ⟨_, rfl⟩
          · cases decoded
      | bool flag | num number | str text | arr items => cases decoded

theorem field_detour (key : String) (json : Json) :
    (detour json).field key = (json.field key).map detour := by
  rw [detour, field_encodeValue, field_decodeValue, Option.map_map]
  rfl

theorem unambiguous_detour {json : Json} (unambiguous : json.Unambiguous) :
    (detour json).Unambiguous :=
  unambiguous_encodeValue (unambiguous_decodeValue unambiguous)

/-- Only the arguments of a job with short integers change on a detour. -/
theorem decode_detour {document : Json} {job : Job} (unambiguous : document.Unambiguous)
    (decoded : Job.decode document = some job)
    (time : Short job.enqueuedAt) (fails : Short job.fails) (failedAt : Short job.failedAt) :
    ∃ args, Job.decode (detour document) = some { job with args := args } := by
  have read := Job.readFrom_of_decode unambiguous decoded
  have changed := unambiguous_detour unambiguous
  cases document with
  | null =>
      cases decoded
      exact ⟨none, rfl⟩
  | obj fields =>
      obtain ⟨args, reread⟩ := decodeArgs_detour read.args
      refine ⟨args, ?_⟩
      rw [detour_obj] at changed ⊢
      refine (Job.decode_obj_iff changed).mpr ?_
      rw [← detour_obj]
      constructor
      · rw [field_detour, decodeString_detour, read.name]
      · rw [field_detour, decodeString_detour, read.id]
      · rw [field_detour, decodeInt64_detour_of_short read.enqueuedAt time]
      · rw [field_detour, reread]
      · rw [field_detour, decodeBool_detour read.unique]
      · rw [field_detour, decodeString_detour, read.uniqueKey]
      · rw [field_detour, decodeInt64_detour_of_short read.fails fails]
      · rw [field_detour, decodeString_detour, read.lastErr]
      · rw [field_detour, decodeInt64_detour_of_short read.failedAt failedAt]
  | bool value | num value | str value | arr items => cases decoded

/-- Setting an integer field of a decoded table is setting it before the detour. -/
theorem encodeValue_setField (key : String) (value : Int64) (fields : List (String × Json)) :
    encodeValue (setField key (toNumber value) (decodeValue (.obj fields))) =
      detour (.obj (Json.setField key (.num (.int value.toInt)) fields)) := by
  have removed : Json.removeField key
        ((Json.lastFields fields).map fun field => (field.1, decodeValue field.2)) =
      (Json.removeField key (Json.lastFields fields)).map
        fun field => (field.1, decodeValue field.2) := List.filter_map
  rw [detour, decodeValue_obj, decodeValue_obj, setField, Json.setField, removed,
    Json.lastFields_setField]
  rfl

end Fields

end Cjson

/-- A job whose time has been set. -/
theorem Job.decode_setField {fields : List (String × Json)} {job : Job}
    (unambiguous : Json.UnambiguousNames (fields.map Prod.fst))
    (decoded : decode (.obj fields) = some job)
    (now : Int64) : decode (.obj (Json.setField "t" (.num (.int now.toInt)) fields)) =
      some { job with enqueuedAt := now } := by
  have read := (decode_obj_iff unambiguous).mp decoded
  have others : ∀ key ≠ "t", (Json.obj (Json.setField "t" (.num (.int now.toInt)) fields)).field
      key = (Json.obj fields).field key :=
    fun key different => Json.getField_setField_of_ne different _ fields
  refine (decode_obj_iff (Json.unambiguousNames_setField unambiguous (by decide) _)).mpr ?_
  constructor
  · rw [others _ (by decide), read.name]
  · rw [others _ (by decide), read.id]
  · rw [Json.field, Json.getField_setField_self, decodeInt64_toInt]
  · rw [others _ (by decide), read.args]
  · rw [others _ (by decide), read.unique]
  · rw [others _ (by decide), read.uniqueKey]
  · rw [others _ (by decide), read.fails]
  · rw [others _ (by decide), read.lastErr]
  · rw [others _ (by decide), read.failedAt]
