import WorkQueue.Accounting.Names
import WorkQueue.Payload.Detour

/-! # Unique jobs that have never failed

A unique job carries its unique key, and from its first failure on the number of its
failures. Whether a payload is that of a unique job with a key that has never failed can
be read off these fields (`RawJSON.isFresh`), which scripts leave alone. What the system
writes never has a count of zero, so that these are the payloads that decode to a job
without failures (`isFresh_of_neverFailed`).
-/

namespace RawJSON

/-- Whether a payload is marked as a unique job with the key and has no count of
failures. -/
def isFresh (key : String) (raw : RawJSON) : Bool :=
  raw.isUnique && raw.textField "unique_key" = some key && (raw.field "fails").isNone

/-- Whether a payload decodes to a unique job with the key that has never failed. -/
def neverFailed (key : String) : RawJSON → Bool
  | .json document =>
      match Job.decode document with
      | some job => job.unique && job.uniqueKey = key && job.fails = 0
      | none => false
  | .text _ => false

/-- The count of failures is left out or not zero. -/
def Counted (raw : RawJSON) : Prop :=
  raw.field "fails" = none ∨
    ∃ number, raw.field "fails" = some (.num number) ∧ 1 ≤ |number.value|

theorem isFresh_iff {key : String} {raw : RawJSON} :
    raw.isFresh key ↔
      raw.isUnique ∧ raw.textField "unique_key" = some key ∧ raw.field "fails" = none := by
  simp only [isFresh, Bool.and_eq_true, decide_eq_true_eq, Option.isNone_iff_eq_none, and_assoc]

theorem counted_serialize (job : Job) : Counted (.json job.serialize) := by
  have field : (RawJSON.json job.serialize).field "fails" =
      if job.fails = 0 then none else some (.num (.int job.fails.toInt)) := job.getField_fails
  rw [Counted, field]
  split
  · exact .inl rfl
  · next nonzero =>
      refine .inr ⟨_, rfl, ?_⟩
      have apart : job.fails.toInt ≠ 0 := fun zero => nonzero (Int64.toInt_inj.mp zero)
      change (1 : ℚ) ≤ |(job.fails.toInt : ℚ)|
      exact_mod_cast Int.one_le_abs apart

theorem isFresh_serialize (key : String) (job : Job) :
    (RawJSON.json job.serialize).isFresh key =
      (job.unique && decide (job.uniqueKey = key) && decide (job.fails = 0)) := by
  have field : (RawJSON.json job.serialize).field "fails" =
      if job.fails = 0 then none else some (.num (.int job.fails.toInt)) := job.getField_fails
  have failures : ((RawJSON.json job.serialize).field "fails").isNone =
      decide (job.fails = 0) := by
    rw [field]
    split
    · next zero => simp [zero]
    · next nonzero => simp [nonzero]
  rw [isFresh, failures]
  simp only [isUnique, job.isUnique_serialize, textField, job.textField_serialize_uniqueKey,
    Option.some.injEq]

/-- A payload of the system that decodes to a job without failures has no count. -/
theorem isFresh_of_neverFailed {key : String} {raw : RawJSON} (unambiguous : raw.Unambiguous)
    (counted : raw.Counted) (never : raw.neverFailed key) : raw.isFresh key := by
  cases raw with
  | text bytes => cases never
  | json document =>
      simp only [neverFailed] at never
      split at never
      · next job decoded =>
          simp only [Bool.and_eq_true, decide_eq_true_eq] at never
          obtain ⟨⟨unique, keyed⟩, zero⟩ := never
          refine isFresh_iff.mpr ⟨(Job.decode_unique unambiguous decoded).trans unique, ?_, ?_⟩
          · rw [textField, (Job.decode_textField unambiguous decoded).2.2, keyed]
          · rcases counted with none | ⟨number, present, positive⟩
            · exact none
            · have read := (Job.readFrom_of_decode unambiguous decoded).fails
              change document.field "fails" = some (.num number) at present
              rw [zero, present] at read
              cases number with
              | real value => cases read
              | int value =>
                  simp only [Job.decodeInt64, Job.assignInt64] at read
                  split at read
                  · next range =>
                      have same := congrArg Int64.toInt (Option.some.inj read)
                      rw [Int64.toInt_ofInt_of_le range.1 range.2, Int64.toInt_zero] at same
                      subst same
                      norm_num [JsonNumber.value] at positive
                  · cases read
      · cases never

section Rewriting

variable {key : String} {raw written : RawJSON} {lua edited : Json}

/-- A script that keeps the mark, the key and the count of a payload keeps whether it is
fresh. -/
theorem isFresh_rewritten (decoded : Cjson.decode raw = some lua)
    (encoded : Cjson.encode edited = some written)
    (present : ∃ own, raw.textField "unique_key" = some own)
    (same : Store.SameIdentity lua edited)
    (counts : edited.field "fails" = lua.field "fails") :
    written.isFresh key = raw.isFresh key := by
  obtain ⟨own, present⟩ := present
  have kept : written.textField "unique_key" = raw.textField "unique_key" := by
    rw [Cjson.textField_encode encoded, same.uniqueKey, Cjson.textField_decode decoded present,
      present]
  rw [isFresh, isFresh, kept, Cjson.isUnique_encode encoded, same.unique,
    Cjson.isUnique_decode decoded, Cjson.field_encode encoded, counts, Cjson.field_decode decoded,
    Option.map_map, Option.isNone_map]

/-- A number that is not below one stays so when it is rounded. -/
theorem one_le_abs_detour {value : ℚ} (large : 1 ≤ |value|) :
    1 ≤ |Rounding.significant 10 14 none (Float64.read value)| := by
  have read : ((2 : ℕ) : ℚ) ^ (0 : ℤ) ≤ |Float64.read value| := by
    refine Rounding.le_abs_significant (by decide) (by decide) (by simpa using large) ?_
    intro bound member
    rw [← Option.mem_some_iff.mp member]
    decide
  have reached : ((10 : ℕ) : ℚ) ^ (0 : ℤ) ≤ |Float64.read value| := by simpa using read
  simpa using Rounding.le_abs_significant (by decide) (by decide : 0 < 14) reached
    fun _ absent => (Option.not_mem_none _ absent).elim

/-- A script that keeps the count of a payload does not make it zero. -/
theorem Counted.rewrite (counted : raw.Counted) (decoded : Cjson.decode raw = some lua)
    (encoded : Cjson.encode edited = some written)
    (counts : edited.field "fails" = lua.field "fails") : written.Counted := by
  have field : written.field "fails" = (raw.field "fails").map Cjson.detour := by
    rw [Cjson.field_encode encoded, counts, Cjson.field_decode decoded, Option.map_map]
    rfl
  rw [Counted, field]
  rcases counted with none | ⟨number, present, positive⟩
  · exact .inl (by rw [none]; rfl)
  · refine .inr ⟨Cjson.encodeNumber (Float64.read number.value), by rw [present]; rfl, ?_⟩
    rw [Cjson.value_encodeNumber]
    exact one_le_abs_detour positive

end Rewriting

end RawJSON

namespace Store

variable (now : Int64) (lua : Json)

theorem field_requeuedJob {key : String} (other : key ≠ "t") :
    (requeuedJob now lua).field key = lua.field key :=
  Cjson.field_setField other _ _

theorem field_unknownJob {key : String} (failedAt : key ≠ "failed_at") (err : key ≠ "err") :
    (unknownJob now lua).field key = lua.field key := by
  rw [unknownJob, Cjson.field_setField failedAt, Cjson.field_setField err]

theorem field_revivedJob_fails : (revivedJob now lua).field "fails" = none := by
  rw [revivedJob, Cjson.field_removeField (by decide), Cjson.field_removeField (by decide),
    Cjson.field_removeField_self]

end Store

namespace System

/-- No payload that the system writes has a count of zero failures. -/
def failsContract (deployment : Deployment) : PayloadContract deployment OwnPayloads where
  payload _ := RawJSON.Counted
  job _ _ := True
  value _ _ := True
  enqueued _ name id now args _ := RawJSON.counted_serialize (Enqueuer.plainJob name id now args)
  scheduled _ name id now args _ _ :=
    RawJSON.counted_serialize (Enqueuer.plainJob name id now args)
  enqueuedUnique _ name id now args keyMap _ _ :=
    ⟨RawJSON.counted_serialize (Enqueuer.uniqueJob deployment.ns name id now args keyMap), trivial⟩
  pushed _ _ _ allowed := Bool.noConfusion allowed.1
  decoded _ _ _ _ _ _ _ := trivial
  updated _ _ _ _ _ _ _ _ _ _ := trivial
  failed _ _ _ name _ _ _ _ _ _ _ _ _ _ fate := by
    obtain ⟨rfl, -⟩ := Worker.processJob_written fate
    exact ⟨name, RawJSON.counted_serialize _⟩
  requeued _ _ _ now _ _ lua _ _ _ _ counted decoded _ encoded :=
    counted.rewrite decoded encoded (Store.field_requeuedJob now lua (by decide))
  buried _ _ _ now name _ lua _ _ _ counted decoded _ _ encoded :=
    ⟨name, counted.rewrite decoded encoded (Store.field_unknownJob now lua (by decide) (by decide))⟩
  revived _ _ _ _ lua _ now _ _ _ _ _ encoded := by
    left
    rw [Cjson.field_encode encoded, Store.field_revivedJob_fails]
    rfl
  kept _ _ name _ lua now _ _ counted decoded encoded :=
    ⟨name, counted.rewrite decoded encoded (Store.field_unknownJob now lua (by decide) (by decide))⟩

end System
