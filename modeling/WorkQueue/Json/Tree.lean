import Mathlib.Data.Rat.Defs
import Mathlib.Data.List.Basic

/-! # JSON documents

A JSON document is represented by its syntax tree. A number keeps its exact
value and whether it is written as a plain integer or with a fraction or an
exponent, since decoders of integer fields accept only the former. Objects keep
their fields in the order in which they are written, also those whose name is
doubled; of these the last one counts (`Json.lastFields`, `Json.getField`).

Traversals are folds of an algebra (`Json.fold`), and statements about all
documents are proved by the induction over items and fields
(`Json.documentInduction`).
-/

/-- A number as it is written: a plain integer, or with a fraction or an exponent. -/
inductive JsonNumber where
  | int (value : ℤ)
  | real (value : ℚ)
  deriving DecidableEq

/-- The exact value of a written number. -/
def JsonNumber.value : JsonNumber → ℚ
  | .int value => value
  | .real value => value

/-- A JSON document. -/
inductive Json where
  | null
  | bool (value : Bool)
  | num (value : JsonNumber)
  | str (value : String)
  | arr (items : List Json)
  | obj (fields : List (String × Json))

namespace Json

section Equality

mutual

private def same : Json → Json → Bool
  | .null, .null => true
  | .bool first, .bool second => first == second
  | .num first, .num second => first == second
  | .str first, .str second => first == second
  | .arr first, .arr second => sameItems first second
  | .obj first, .obj second => sameFields first second
  | _, _ => false

private def sameItems : List Json → List Json → Bool
  | [], [] => true
  | first :: firsts, second :: seconds => same first second && sameItems firsts seconds
  | _, _ => false

private def sameFields : List (String × Json) → List (String × Json) → Bool
  | [], [] => true
  | (key, first) :: firsts, (other, second) :: seconds =>
      key == other && same first second && sameFields firsts seconds
  | _, _ => false

end

mutual

private theorem same_iff : ∀ first second : Json, same first second = true ↔ first = second
  | .null, second => by cases second <;> simp [same]
  | .bool _, second => by cases second <;> simp [same]
  | .num _, second => by cases second <;> simp [same]
  | .str _, second => by cases second <;> simp [same]
  | .arr items, second => by cases second <;> simp [same, sameItems_iff items]
  | .obj fields, second => by cases second <;> simp [same, sameFields_iff fields]

private theorem sameItems_iff : ∀ first second : List Json,
    sameItems first second = true ↔ first = second
  | [], second => by cases second <;> simp [sameItems]
  | item :: items, second => by
      cases second <;> simp [sameItems, same_iff item, sameItems_iff items]

private theorem sameFields_iff : ∀ first second : List (String × Json),
    sameFields first second = true ↔ first = second
  | [], second => by cases second <;> simp [sameFields]
  | (_, _) :: _, [] => by simp [sameFields]
  | (_, value) :: fields, (_, _) :: _ => by
      simp [sameFields, same_iff value, sameFields_iff fields, and_assoc]

end

instance : DecidableEq Json := fun first second => decidable_of_iff _ (same_iff first second)

end Equality

section Fold

variable {Result : Type}

/-- What a traversal returns at each kind of document. -/
structure Algebra (Result : Type) where
  null : Result
  bool : Bool → Result
  num : JsonNumber → Result
  str : String → Result
  arr : List Result → Result
  obj : List (String × Result) → Result

mutual

/-- Apply an algebra to a document from the leaves up. -/
def fold (algebra : Algebra Result) : Json → Result
  | .null => algebra.null
  | .bool value => algebra.bool value
  | .num value => algebra.num value
  | .str value => algebra.str value
  | .arr items => algebra.arr (foldItems algebra items)
  | .obj fields => algebra.obj (foldFields algebra fields)

private def foldItems (algebra : Algebra Result) : List Json → List Result
  | [] => []
  | item :: items => fold algebra item :: foldItems algebra items

private def foldFields (algebra : Algebra Result) :
    List (String × Json) → List (String × Result)
  | [] => []
  | (key, value) :: fields => (key, fold algebra value) :: foldFields algebra fields

end

theorem fold_arr (algebra : Algebra Result) (items : List Json) :
    (Json.arr items).fold algebra = algebra.arr (items.map (fold algebra)) := by
  have pointwise : foldItems algebra items = items.map (fold algebra) := by
    induction items with
    | nil => rfl
    | cons item items ih => rw [foldItems, ih, List.map_cons]
  rw [fold, pointwise]

theorem fold_obj (algebra : Algebra Result) (fields : List (String × Json)) :
    (Json.obj fields).fold algebra =
      algebra.obj (fields.map fun field => (field.1, field.2.fold algebra)) := by
  have pointwise : foldFields algebra fields =
      fields.map fun field => (field.1, field.2.fold algebra) := by
    induction fields with
    | nil => rfl
    | cons field fields ih => rw [foldFields, ih, List.map_cons]
  rw [fold, pointwise]

end Fold

section Induction

/-- Induction over documents, with the hypothesis for every item and field. -/
theorem documentInduction {motive : Json → Prop} (null : motive .null)
    (bool : ∀ value, motive (.bool value)) (num : ∀ value, motive (.num value))
    (str : ∀ value, motive (.str value))
    (arr : ∀ items, (∀ item ∈ items, motive item) → motive (.arr items))
    (obj : ∀ fields, (∀ field ∈ fields, motive field.2) → motive (.obj fields)) :
    ∀ json, motive json := by
  refine @Json.rec motive (fun items => ∀ item ∈ items, motive item)
    (fun fields => ∀ field ∈ fields, motive field.2) (fun field => motive field.2)
    null bool num str arr obj ?_ ?_ ?_ ?_ ?_
  · intro item member
    exact (List.not_mem_nil member).elim
  · intro head tail holds rest item member
    rcases List.mem_cons.mp member with rfl | later
    · exact holds
    · exact rest item later
  · intro field member
    exact (List.not_mem_nil member).elim
  · intro head tail holds rest field member
    rcases List.mem_cons.mp member with rfl | later
    · exact holds
    · exact rest field later
  · intro key value holds
    exact holds

end Induction

section Fields

/-- The fields of an object without those of one name. -/
def removeField (key : String) (fields : List (String × Json)) : List (String × Json) :=
  fields.filter fun field => field.1 ≠ key

/-- The fields of an object with one set to a value. -/
def setField (key : String) (value : Json) (fields : List (String × Json)) :
    List (String × Json) :=
  (key, value) :: removeField key fields

theorem lookup_removeField_self (key : String) (fields : List (String × Json)) :
    (removeField key fields).lookup key = none := by
  rw [removeField, List.lookup_eq_none_iff]
  intro field member
  have kept : field.1 ≠ key := of_decide_eq_true (List.mem_filter.mp member).2
  simpa using Ne.symm kept

/-- A field is found among those whose names are kept, if its own name is. -/
theorem lookup_filter_names {Value : Type} {keep : String → Bool} {key : String} (kept : keep key)
    (fields : List (String × Value)) :
    (fields.filter fun field => keep field.1).lookup key = fields.lookup key := by
  induction fields with
  | nil => rfl
  | cons field fields ih =>
      by_cases same : key = field.1
      · subst same
        rw [List.filter_cons, if_pos kept, List.lookup_cons_self, List.lookup_cons_self]
      · have passed : (field :: fields).lookup key = fields.lookup key := by
          rw [List.lookup_cons, beq_eq_false_iff_ne.mpr same]
        rw [passed, ← ih, List.filter_cons]
        split
        · rw [List.lookup_cons, beq_eq_false_iff_ne.mpr same]
        · rfl

theorem lookup_removeField_of_ne {key other : String} (different : other ≠ key)
    (fields : List (String × Json)) :
    (removeField key fields).lookup other = fields.lookup other :=
  @lookup_filter_names _ (fun name => name ≠ key) other (decide_eq_true different) fields

theorem lookup_setField_self (key : String) (value : Json)
    (fields : List (String × Json)) : (setField key value fields).lookup key = some value := by
  simp only [setField, List.lookup_cons_self]

theorem lookup_setField_of_ne {key other : String} (different : other ≠ key)
    (value : Json) (fields : List (String × Json)) :
    (setField key value fields).lookup other = fields.lookup other := by
  rw [setField, List.lookup_cons, beq_eq_false_iff_ne.mpr different,
    lookup_removeField_of_ne different]

theorem lookup_map_values (transform : Json → Json) (key : String)
    (fields : List (String × Json)) :
    (fields.map fun field => (field.1, transform field.2)).lookup key =
      (fields.lookup key).map transform := by
  induction fields with
  | nil => rfl
  | cons field fields ih =>
      rw [List.map_cons, List.lookup_cons, List.lookup_cons, ih]
      cases key == field.1 <;> rfl

end Fields

section Doubled

variable {Value Result : Type}

/-- The fields of an object that count where a name is doubled: the last ones. -/
def lastFields : List (String × Value) → List (String × Value)
  | [] => []
  | field :: fields =>
      if field.1 ∈ fields.map Prod.fst then lastFields fields else field :: lastFields fields

theorem lastFields_singleton (field : String × Value) : lastFields [field] = [field] := rfl

theorem lastFields_sublist (fields : List (String × Value)) :
    (lastFields fields).Sublist fields := by
  induction fields with
  | nil => exact .slnil
  | cons field fields ih =>
      unfold lastFields
      split
      · exact ih.cons field
      · exact ih.cons_cons field

/-- No name is doubled among the fields that count. -/
theorem nodup_lastFields (fields : List (String × Value)) :
    ((lastFields fields).map Prod.fst).Nodup := by
  induction fields with
  | nil => exact .nil
  | cons field fields ih =>
      unfold lastFields
      split
      · exact ih
      · next once =>
          rw [List.map_cons]
          refine List.nodup_cons.mpr ⟨fun again => once ?_, ih⟩
          exact ((lastFields_sublist fields).map Prod.fst).subset again

/-- All fields count if no name is doubled. -/
theorem lastFields_of_nodup {fields : List (String × Value)}
    (nodup : (fields.map Prod.fst).Nodup) : lastFields fields = fields := by
  induction fields with
  | nil => rfl
  | cons field fields ih =>
      obtain ⟨once, rest⟩ := List.nodup_cons.mp nodup
      rw [lastFields, if_neg once, ih rest]

theorem lastFields_lastFields (fields : List (String × Value)) :
    lastFields (lastFields fields) = lastFields fields :=
  lastFields_of_nodup (nodup_lastFields fields)

theorem lastFields_map_values (transform : Value → Result) (fields : List (String × Value)) :
    lastFields (fields.map fun field => (field.1, transform field.2)) =
      (lastFields fields).map fun field => (field.1, transform field.2) := by
  have names : ∀ fields : List (String × Value),
      (fields.map fun field => (field.1, transform field.2)).map Prod.fst =
        fields.map Prod.fst := by
    intro fields
    rw [List.map_map]
    rfl
  induction fields with
  | nil => rfl
  | cons field fields ih =>
      rw [List.map_cons, lastFields, lastFields, names, ih]
      split
      · rfl
      · rw [List.map_cons]

/-- Which fields count does not depend on those of other names. -/
theorem lastFields_filter_names (keep : String → Bool) (fields : List (String × Value)) :
    lastFields (fields.filter fun field => keep field.1) =
      (lastFields fields).filter fun field => keep field.1 := by
  induction fields with
  | nil => rfl
  | cons field fields ih =>
      by_cases kept : keep field.1
      · have again : field.1 ∈ (fields.filter fun field => keep field.1).map Prod.fst ↔
            field.1 ∈ fields.map Prod.fst := by
          constructor
          · exact fun member => (List.filter_sublist.map Prod.fst).subset member
          · intro member
            obtain ⟨other, present, same⟩ := List.mem_map.mp member
            refine List.mem_map.mpr ⟨other, List.mem_filter.mpr ⟨present, ?_⟩, same⟩
            rw [same]
            exact kept
        rw [List.filter_cons, if_pos kept, lastFields, lastFields, ih]
        simp only [again]
        split
        · rfl
        · rw [List.filter_cons, if_pos kept]
      · rw [List.filter_cons, if_neg kept, lastFields, ih]
        split
        · rfl
        · rw [List.filter_cons, if_neg kept]

theorem lastFields_removeField (key : String) (fields : List (String × Json)) :
    lastFields (removeField key fields) = removeField key (lastFields fields) :=
  lastFields_filter_names (fun name => name ≠ key) fields

theorem lastFields_setField (key : String) (value : Json) (fields : List (String × Json)) :
    lastFields (setField key value fields) = setField key value (lastFields fields) := by
  have once : key ∉ (removeField key fields).map Prod.fst := by
    intro member
    obtain ⟨field, present, same⟩ := List.mem_map.mp member
    exact of_decide_eq_true (List.mem_filter.mp present).2 same
  rw [setField, lastFields, if_neg once, lastFields_removeField, setField]

/-- The value of a field, of the last one where its name is doubled. -/
def getField (key : String) (fields : List (String × Value)) : Option Value :=
  (lastFields fields).lookup key

theorem getField_of_nodup {fields : List (String × Value)} (nodup : (fields.map Prod.fst).Nodup)
    (key : String) : getField key fields = fields.lookup key := by
  rw [getField, lastFields_of_nodup nodup]

theorem getField_lastFields (key : String) (fields : List (String × Value)) :
    getField key (lastFields fields) = getField key fields := by
  rw [getField, lastFields_lastFields, getField]

@[simp] theorem getField_removeField_self (key : String) (fields : List (String × Json)) :
    getField key (removeField key fields) = none := by
  rw [getField, lastFields_removeField, lookup_removeField_self]

@[simp] theorem getField_removeField_of_ne {key other : String} (different : other ≠ key)
    (fields : List (String × Json)) :
    getField other (removeField key fields) = getField other fields := by
  rw [getField, lastFields_removeField, lookup_removeField_of_ne different, getField]

@[simp] theorem getField_setField_self (key : String) (value : Json)
    (fields : List (String × Json)) : getField key (setField key value fields) = some value := by
  rw [getField, lastFields_setField, lookup_setField_self]

@[simp] theorem getField_setField_of_ne {key other : String} (different : other ≠ key)
    (value : Json) (fields : List (String × Json)) :
    getField other (setField key value fields) = getField other fields := by
  rw [getField, lastFields_setField, lookup_setField_of_ne different, getField]

/-- Mapping the values of an object commutes with reading a field. -/
theorem getField_map_values (transform : Json → Json) (key : String)
    (fields : List (String × Json)) :
    getField key (fields.map fun field => (field.1, transform field.2)) =
      (getField key fields).map transform := by
  rw [getField, lastFields_map_values, lookup_map_values, getField]

end Doubled

end Json
