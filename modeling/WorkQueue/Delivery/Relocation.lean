import WorkQueue.Delivery.Detour
import WorkQueue.Delivery.Requeueing
import WorkQueue.Delivery.Tracking

/-! # Scripts that abort

The scripts that work on sorted sets take a payload out before they know whether they can put
it back, and what they have done is not undone when they abort. They can put a payload back
if it has a name and its numbers are doubles (`RawJSON.Sturdy`): then every payload that a
script takes out is put back at once, to the queue of its name or among the dead jobs, however
the script ends (`System.relocated`).
-/

/-- A payload that scripts can put back: it has an identifier, a name that is not empty, and
numbers that are doubles. -/
structure RawJSON.Sturdy (raw : RawJSON) : Prop where
  identified : ∃ id, raw.textField "id" = some id
  named : ∃ name, raw.textField "name" = some name ∧ name ≠ ""
  fits : raw.numbersFit

/-- A job that is encoded as such a payload. -/
def Job.Sturdy (job : Job) : Prop := job.name ≠ "" ∧ (Job.encodeArgs job.args).numbersFit

instance (job : Job) : Decidable job.Sturdy := inferInstanceAs (Decidable (_ ∧ _))

theorem Job.Sturdy.serialize {job : Job} (sturdy : job.Sturdy) :
    (RawJSON.json job.serialize).Sturdy where
  identified := ⟨job.id, job.textField_serialize_id⟩
  named := ⟨job.name, job.textField_serialize_name, sturdy.1⟩
  fits := Job.numbersFit_serialize sturdy.2

/-- Decoded arguments are made of doubles. -/
theorem Job.numbersFit_args {document : Json} {job : Job} (unambiguous : document.Unambiguous)
    (decoded : Job.decode document = some job) : (Job.encodeArgs job.args).numbersFit := by
  have read := (Job.readFrom_of_decode unambiguous decoded).args
  cases field : document.field "args" with
  | none =>
      rw [field] at read
      rw [← Option.some.inj read]
      rfl
  | some value =>
      rw [field, Job.decodeArgs] at read
      unfold Job.assignArgs at read
      split at read
      · rw [← Option.some.inj read]
        rfl
      · split at read
        · next fit =>
            rw [← Option.some.inj read, Option.getD_none, List.nil_append, Job.encodeArgs,
              Json.lastFields_map_values, Json.sortFields_map, ← Json.normalise_obj]
            exact Cjson.numbersFit_normalise fit
        · cases read
      · cases read

namespace RawJSON.Sturdy

variable {raw written : RawJSON} {lua edited : Json}

/-- A worker gets a job from such a payload that can be encoded as one again. -/
theorem newJob {source target : ListKey} {fetched : FetchedJob} (sturdy : raw.Sturdy)
    (unambiguous : raw.Unambiguous) (decoded : newJob raw source target = some fetched) :
    fetched.toJob.Sturdy := by
  obtain ⟨name, named, nonempty⟩ := sturdy.named
  obtain ⟨-, -, -, document, rfl, read⟩ := newJob_eq_some decoded
  refine ⟨?_, Job.numbersFit_args unambiguous read⟩
  have same := (newJob_textField unambiguous decoded).1.symm.trans named
  rwa [Option.some.inj same]

/-- What a script writes for such a payload is one. -/
theorem rewrite (sturdy : raw.Sturdy) (decoded : Cjson.decode raw = some lua)
    (encoded : Cjson.encode edited = some written) (same : Store.SameIdentity lua edited) :
    written.Sturdy where
  identified := (@RawJSON.hasID_rewritten "" _ _ _ _ sturdy.identified decoded encoded same).1
  named := by
    obtain ⟨name, named, nonempty⟩ := sturdy.named
    refine ⟨name, ?_, nonempty⟩
    rw [Cjson.textField_encode encoded, same.name]
    exact Cjson.textField_decode decoded named
  fits := by
    obtain ⟨fit, rfl⟩ := Cjson.of_encode encoded
    exact Cjson.numbersFit_encodeValue fit.1

/-- A script finds the name of such a payload and can write it back. -/
theorem index_and_encodable (sturdy : raw.Sturdy) (decoded : Cjson.decode raw = some lua) :
    ∃ name, raw.textField "name" = some name ∧
      (Cjson.index "name" lua).bind Cjson.concat = some name ∧ Cjson.Encodable lua := by
  obtain ⟨name, named, nonempty⟩ := sturdy.named
  obtain ⟨indexed, encodable⟩ := Cjson.index_and_encodable_of_decode decoded named nonempty
    fun document same => by rw [← sturdy.fits, same]; rfl
  exact ⟨name, named, indexed, encodable⟩

end RawJSON.Sturdy

namespace Store

/-- Two payloads of one job. -/
structure SameJob (raw written : RawJSON) : Prop where
  id : written.textField "id" = raw.textField "id"
  name : written.textField "name" = raw.textField "name"

/-- Some payloads were taken out of a sorted set, one after the other, and every one of them
was put back at once under a payload of the same job: to the queue of its name if the name is
known, and among the dead jobs otherwise. -/
inductive Relocated (key : ZSetKey) (known : List String) : Store → List RawJSON → Store → Prop
  | done {store : Store} : Relocated key known store [] store
  | queued {store next : Store} {raw pushed : RawJSON} {name : String} {removed : List RawJSON} :
      raw ∈ (store.zset key).members → raw.textField "name" = some name → name ∈ known →
      SameJob raw pushed →
      Relocated key known ((store.zrem key raw).lpush (.jobs name) pushed) removed next →
      Relocated key known store (raw :: removed) next
  | buried {store next : Store} {raw pushed : RawJSON} {name : String} {score : ℤ}
      {removed : List RawJSON} :
      raw ∈ (store.zset key).members → raw.textField "name" = some name → name ∉ known →
      SameJob raw pushed →
      Relocated key known ((store.zrem key raw).zadd .dead score pushed) removed next →
      Relocated key known store (raw :: removed) next

variable {store next : Store} {key : ZSetKey} {known : List String} {raw written : RawJSON}
  {lua edited : Json} {now : Int64}

theorem sameJob_of_rewrite (sturdy : raw.Sturdy) (decoded : Cjson.decode raw = some lua)
    (encoded : Cjson.encode edited = some written) (same : SameIdentity lua edited) :
    SameJob raw written := by
  obtain ⟨id, identified⟩ := sturdy.identified
  obtain ⟨name, named, -⟩ := sturdy.named
  constructor
  · rw [Cjson.textField_encode encoded, same.id, identified]
    exact Cjson.textField_decode decoded identified
  · rw [Cjson.textField_encode encoded, same.name, named]
    exact Cjson.textField_decode decoded named

/-- The requeuer's script puts back what it takes out. -/
theorem relocated_zremLpush (sturdy : ∀ raw ∈ (store.zset key).members, raw.Sturdy) :
    ∃ removed, Relocated key known store removed (store.redisLuaZremLpushCmd key known now).1 := by
  cases due : ((store.zset key).upTo now.toInt).head? with
  | none =>
      refine ⟨[], ?_⟩
      rw [redisLuaZremLpushCmd, due]
      exact .done
  | some raw =>
      have member := SortedSet.mem_of_mem_upTo (List.mem_of_head? due)
      have sturdy := sturdy raw member
      obtain ⟨name, named, nonempty⟩ := sturdy.named
      cases decoded : Cjson.decode raw with
      | none =>
          refine ⟨[], ?_⟩
          rw [redisLuaZremLpushCmd, due]
          simp only [decoded]
          exact .done
      | some lua =>
          have decodes : (Cjson.decode raw).isSome := by rw [decoded]; rfl
          refine ⟨[raw], ?_⟩
          rcases redisLuaZremLpushCmd_of_due due decodes named nonempty sturdy.fits with
            ⟨listed, job, pushed, read, encoded, after⟩ |
            ⟨unlisted, job, pushed, read, encoded, after⟩
          · rw [after]
            exact .queued member named listed
              (sameJob_of_rewrite sturdy read encoded (sameIdentity_requeuedJob now job)) .done
          · rw [after]
            exact .buried member named unlisted
              (sameJob_of_rewrite sturdy read encoded (sameIdentity_unknownJob now job)) .done

/-- The requeuer's script has taken the payload out when it aborts on one that it could
decode. -/
theorem redisLuaZremLpushCmd_of_error (due : ((store.zset key).upTo now.toInt).head? = some raw)
    (decodes : (Cjson.decode raw).isSome)
    (aborted : (store.redisLuaZremLpushCmd key known now).2 = .error) :
    (store.redisLuaZremLpushCmd key known now).1 = store.zrem key raw := by
  have outcome := store.redisLuaZremLpushCmd_cases key known now
  generalize store.redisLuaZremLpushCmd key known now = result at outcome aborted ⊢
  have first : ∀ {other}, ((store.zset key).upTo now.toInt).head? = some other → other = raw :=
    fun found => Option.some.inj (found.symm.trans due)
  cases outcome with
  | nothing _ | requeued _ _ _ _ _ | buried _ _ _ _ _ => cases aborted
  | undecodable found undecodable =>
      obtain rfl := first found
      rw [undecodable] at decodes
      cases decodes
  | nameless found _ _ | unpushable found _ _ _ _ | unburiable found _ _ _ _ => rw [first found]

/-- What becomes of a dead payload that scripts can put back. -/
theorem requeueDeadJob_of_sturdy (sturdy : raw.Sturdy) (decoded : Cjson.decode raw = some lua)
    (store : Store) (known : List String) (now : Int64) :
    ∃ name, raw.textField "name" = some name ∧
      ((name ∈ known ∧ ∃ pushed, Cjson.encode (revivedJob now lua) = some pushed ∧
          store.requeueDeadJob known now raw lua =
            ((store.zrem .dead raw).lpush (.jobs name) pushed, some 1)) ∨
        (name ∉ known ∧ ∃ pushed, Cjson.encode (unknownJob now lua) = some pushed ∧
          store.requeueDeadJob known now raw lua =
            ((store.zrem .dead raw).zadd .dead (now.toInt + 5) pushed, some 0))) := by
  obtain ⟨name, named, indexed, encodable⟩ := sturdy.index_and_encodable decoded
  refine ⟨name, named, ?_⟩
  by_cases listed : name ∈ known
  · obtain ⟨pushed, encoded⟩ := (encodable_revivedJob encodable now).exists_encode
    refine .inl ⟨listed, pushed, encoded, ?_⟩
    simp only [requeueDeadJob, indexed, listed, ↓reduceIte, encoded]
  · obtain ⟨pushed, encoded⟩ := (encodable_unknownJob encodable now).exists_encode
    refine .inr ⟨listed, pushed, encoded, ?_⟩
    simp only [requeueDeadJob, indexed, listed, ↓reduceIte, encoded]

/-- Requeueing a dead job puts it back, and leaves the others where they are. -/
theorem relocated_requeueDeadJob (sturdy : raw.Sturdy) (member : raw ∈ (store.zset .dead).members)
    (decoded : Cjson.decode raw = some lua) :
    ∃ next count, store.requeueDeadJob known now raw lua = (next, some count) ∧
      (∀ removed last, Relocated .dead known next removed last →
        Relocated .dead known store (raw :: removed) last) ∧
      ∀ others : List RawJSON, raw ∉ others →
        (∀ other ∈ others, other ∈ (store.zset .dead).members) →
        ∀ other ∈ others, other ∈ (next.zset .dead).members := by
  have stays : ∀ others : List RawJSON, raw ∉ others →
      (∀ other ∈ others, other ∈ (store.zset .dead).members) →
      ∀ other ∈ others, other ∈ ((store.zrem .dead raw).zset .dead).members := by
    intro others absent present other listed
    simp only [zrem, Function.update_self, SortedSet.mem_erase]
    refine ⟨?_, present other listed⟩
    rintro rfl
    exact absent listed
  obtain ⟨name, named, ⟨listed, pushed, encoded, after⟩ | ⟨unlisted, pushed, encoded, after⟩⟩ :=
    requeueDeadJob_of_sturdy sturdy decoded store known now
  · refine ⟨_, _, after, fun removed last rest => ?_, stays⟩
    exact .queued member named listed
      (sameJob_of_rewrite sturdy decoded encoded (sameIdentity_revivedJob now lua)) rest
  · refine ⟨_, _, after, fun removed last rest => ?_, fun others absent present other listed => ?_⟩
    · exact .buried member named unlisted
        (sameJob_of_rewrite sturdy decoded encoded (sameIdentity_unknownJob now lua)) rest
    · simp only [zadd, Function.update_self, SortedSet.mem_add]
      exact .inr (stays others absent present other listed)

/-- Requeueing some dead payloads puts back what it takes out. -/
theorem relocated_requeueRun {raws : List RawJSON} (run : RequeueRun known now raws store next)
    (distinct : raws.Nodup) (members : ∀ raw ∈ raws, raw ∈ (store.zset .dead).members)
    (sturdy : ∀ raw ∈ raws, raw.Sturdy) : ∃ removed, Relocated .dead known store removed next := by
  induction run with
  | done => exact ⟨[], .done⟩
  | skipped _ ih =>
      rw [List.nodup_cons] at distinct
      rw [List.forall_mem_cons] at members sturdy
      exact ih distinct.2 members.2 sturdy.2
  | @requeued raw raws store next lua decoded _ ih =>
      rw [List.nodup_cons] at distinct
      rw [List.forall_mem_cons] at members sturdy
      obtain ⟨after, count, requeued, extend, stays⟩ :=
        @relocated_requeueDeadJob store known raw lua now sturdy.1 members.1 decoded
      rw [requeued] at ih
      obtain ⟨removed, rest⟩ := ih distinct.2 (stays raws distinct.1 members.2) sturdy.2
      exact ⟨raw :: removed, extend removed next rest⟩

/-- A payload of the same job has its identifier. -/
theorem SameJob.hasID (same : SameJob raw written) (jobID : String) :
    written.hasID jobID = raw.hasID jobID := by
  rw [RawJSON.hasID, RawJSON.hasID, same.id]

/-- The members of a sorted set that are payloads of a job carry a name. -/
def Names (store : Store) (key : ZSetKey) (jobID name : String) : Prop :=
  ∀ raw ∈ (store.zset key).members, raw.hasID jobID → raw.textField "name" = some name

namespace Names

variable {jobID name : String}

theorem zrem (names : store.Names key jobID name) (raw : RawJSON) :
    (store.zrem key raw).Names key jobID name := by
  intro other member
  simp only [Store.zrem, Function.update_self, SortedSet.mem_erase] at member
  exact names other member.2

theorem zadd {there : ZSetKey} {score : ℤ} (names : store.Names key jobID name)
    (named : written.hasID jobID → written.textField "name" = some name) :
    (store.zadd there score written).Names key jobID name := by
  intro other member own
  by_cases same : key = there
  · subst same
    simp only [Store.zadd, Function.update_self, SortedSet.mem_add] at member
    obtain rfl | member := member
    · exact named own
    · exact names other member own
  · simp only [Store.zadd, Function.update_of_ne same] at member
    exact names other member own

end Names

/-- A job on a sorted set, and nowhere else, has one payload there. -/
theorem Placed.names {jobID name : String} (placed : store.Placed jobID (some (.zset key)))
    (member : raw ∈ (store.zset key).members) (own : raw.hasID jobID)
    (named : raw.textField "name" = some name) : store.Names key jobID name := by
  intro other present mine
  have once : (store.zset key).members.countP (RawJSON.hasID jobID) = 1 :=
    (placed (.zset key)).1 rfl
  rw [List.countP_eq_length_filter, List.length_eq_one_iff] at once
  obtain ⟨only, filtered⟩ := once
  have single : ∀ payload ∈ (store.zset key).members, payload.hasID jobID → payload = only := by
    intro payload present own
    have listed := List.mem_filter.mpr ⟨present, own⟩
    rw [filtered] at listed
    exact List.mem_singleton.mp listed
  rw [single other present mine, ← single raw member own]
  exact named

/-- A job that is in one place is in one place afterwards: where it was if it was not taken
out, and otherwise on the queue of its name or among the dead jobs. -/
theorem Relocated.placed {removed : List RawJSON} {jobID name : String} {place : Place}
    (relocated : Relocated key known store removed next)
    (names : store.Names key jobID name) (placed : store.Placed jobID (some place)) :
    ((∀ raw ∈ removed, raw.hasID jobID = false) ∧ next.Placed jobID (some place)) ∨
      next.Placed jobID (some (.list (.jobs name))) ∨ next.Placed jobID (some (.zset .dead)) := by
  induction relocated generalizing place with
  | done => exact .inl ⟨by simp, placed⟩
  | @queued store next raw pushed queue removed member named listed same rest ih =>
      have names' : ((store.zrem key raw).lpush (.jobs queue) pushed).Names key jobID name :=
        names.zrem raw
      cases own : raw.hasID jobID with
      | false =>
          refine (ih names' (.lpush_other (placed.zrem_other own) ?_)).imp_left fun stayed => ?_
          · rw [same.hasID, own]
          · exact ⟨List.forall_mem_cons.mpr ⟨own, stayed.1⟩, stayed.2⟩
      | true =>
          obtain rfl : queue = name := Option.some.inj (named.symm.trans (names raw member own))
          refine .inr ((ih names' (.lpush_own (placed.zrem_own own member) ?_)).elim ?_ id)
          · rw [same.hasID, own]
          · exact fun stayed => .inl stayed.2
  | @buried store next raw pushed queue score removed member named unlisted same rest ih =>
      have names' : ((store.zrem key raw).zadd .dead score pushed).Names key jobID name := by
        apply (names.zrem raw).zadd
        intro own
        rw [same.name]
        exact names raw member ((same.hasID jobID).symm.trans own)
      cases own : raw.hasID jobID with
      | false =>
          refine (ih names' (.zadd_other (placed.zrem_other own) ?_)).imp_left fun stayed => ?_
          · rw [same.hasID, own]
          · exact ⟨List.forall_mem_cons.mpr ⟨own, stayed.1⟩, stayed.2⟩
      | true =>
          refine .inr ((ih names' (.zadd_own (placed.zrem_own own member) ?_)).elim ?_ id)
          · rw [same.hasID, own]
          · exact fun stayed => .inr stayed.2

end Store

/-- A failed job can be put back if it could be put back before and the handler leaves one
that can. -/
theorem Worker.sturdy_processJob {config : PoolConfig} {job : Job} {finish : Finish}
    (sturdy : job.Sturdy) (after : finish.after.Sturdy) :
    (processJob config job finish).1.Sturdy := by
  unfold processJob
  split
  · exact sturdy
  · split
    · exact after
    · exact after

namespace System

/-- The sorted-set scripts that move jobs, with their arguments. -/
inductive ZSetScript where
  | zremLpush (key : ZSetKey) (known : List String) (now : Int64)
  | requeueSingleDead (known : List String) (now diedAt : Int64) (jobID : String)
  | requeueAllDead (known : List String) (now : Int64) (limit : ℕ)

namespace ZSetScript

/-- The sorted set that a script takes payloads from. -/
def key : ZSetScript → ZSetKey
  | .zremLpush key _ _ => key
  | .requeueSingleDead .. => .dead
  | .requeueAllDead .. => .dead

/-- The names of the queues that a script is given. -/
def known : ZSetScript → List String
  | .zremLpush _ known _ => known
  | .requeueSingleDead known .. => known
  | .requeueAllDead known .. => known

/-- The store that a script leaves, whether it returns or raises an error. -/
def run (store : Store) : ZSetScript → Store
  | .zremLpush key known now => (store.redisLuaZremLpushCmd key known now).1
  | .requeueSingleDead known now diedAt jobID =>
      (store.redisLuaRequeueSingleDeadCmd known now diedAt jobID).1
  | .requeueAllDead known now limit => (store.redisLuaRequeueAllDeadCmd known now limit).1

/-- A script puts back what it takes out. -/
theorem relocated_run {store : Store} (script : ZSetScript)
    (sturdy : ∀ raw ∈ (store.zset script.key).members, raw.Sturdy) :
    ∃ removed, Store.Relocated script.key script.known store removed (script.run store) := by
  cases script with
  | zremLpush key known now => exact Store.relocated_zremLpush sturdy
  | requeueSingleDead known now diedAt jobID =>
      have members := fun raw => @SortedSet.mem_of_mem_withScore _ _ (store.zset .dead)
        diedAt.toInt raw
      apply Store.relocated_requeueRun (Store.requeueRun_requeueLoop _ _ _) _ members
        fun raw due => sturdy raw (members raw due)
      exact (store.zset .dead).nodup.sublist ((store.zset .dead).withScore_sublist _)
  | requeueAllDead known now limit =>
      have members : ∀ raw ∈ ((store.zset .dead).upTo now.toInt).take limit,
          raw ∈ (store.zset .dead).members := fun raw due =>
        SortedSet.mem_of_mem_upTo (List.mem_of_mem_take due)
      apply Store.relocated_requeueRun (Store.requeueRun_requeueLoop _ _ _) _ members
        fun raw due => sturdy raw (members raw due)
      exact (store.zset .dead).nodup.sublist
        ((List.take_sublist _ _).trans ((store.zset .dead).upTo_sublist _))

end ZSetScript

/-- Jobs are enqueued, and left by their handlers, with names that are not empty and with
numbers that are doubles. -/
def Rewritable (_ : State) : Event → Prop
  | .enqueuer (.enqueue name id now args) => (Enqueuer.plainJob name id now args).Sturdy
  | .enqueuer (.enqueueAt name id now args _) => (Enqueuer.plainJob name id now args).Sturdy
  | .enqueuer (.enqueueUnique name id now args _ _) => (Enqueuer.plainJob name id now args).Sturdy
  | .pool _ (.worker _ (.finish finish _)) => finish.after.Sturdy
  | .push _ _ => False
  | _ => True

/-- A script that keeps a payload sturdy also doubles no field. -/
theorem sturdy_and_unambiguous_rewrite {raw written : RawJSON} {lua edited : Json}
    (held : raw.Sturdy ∧ raw.Unambiguous) (decoded : Cjson.decode raw = some lua)
    (encoded : Cjson.encode edited = some written) (same : Store.SameIdentity lua edited) :
    written.Sturdy ∧ written.Unambiguous :=
  ⟨held.1.rewrite decoded encoded same,
    Cjson.unambiguous_encode encoded (same.unambiguous (Cjson.unambiguous_decode decoded held.2))⟩

/-- All payloads can be put back by scripts. -/
def sturdyContract (deployment : Deployment) : PayloadContract deployment Rewritable where
  payload _ raw := raw.Sturdy ∧ raw.Unambiguous
  job _ := Job.Sturdy
  value _ raw := raw = .placeholder ∨ raw.Sturdy ∧ raw.Unambiguous
  enqueued _ _ _ _ _ allowed := ⟨Job.Sturdy.serialize allowed, Job.unambiguous_serialize _⟩
  scheduled _ _ _ _ _ _ allowed := ⟨Job.Sturdy.serialize allowed, Job.unambiguous_serialize _⟩
  enqueuedUnique _ name id now args keyMap _ allowed := by
    have sturdy : (Enqueuer.uniqueJob deployment.ns name id now args keyMap).Sturdy := allowed
    refine ⟨⟨sturdy.serialize, Job.unambiguous_serialize _⟩, ?_⟩
    cases keyMap with
    | none => exact .inl rfl
    | some fields => exact .inr ⟨sturdy.serialize, Job.unambiguous_serialize _⟩
  pushed _ _ _ allowed := allowed.elim
  decoded _ _ _ _ _ held decoded := held.1.newJob held.2 decoded
  updated _ _ _ _ _ _ _ valued updating decoded :=
    (valued.resolve_left updating).1.newJob (valued.resolve_left updating).2 decoded
  failed _ _ _ name _ _ _ _ _ _ _ _ allowed held fate := by
    obtain ⟨rfl, -⟩ := Worker.processJob_written fate
    exact ⟨name, (Worker.sturdy_processJob held allowed).serialize, Job.unambiguous_serialize _⟩
  requeued _ _ _ now _ _ lua _ _ _ _ held decoded _ encoded :=
    sturdy_and_unambiguous_rewrite held decoded encoded (Store.sameIdentity_requeuedJob now lua)
  buried _ _ _ now name _ lua _ _ _ held decoded _ _ encoded :=
    ⟨name, sturdy_and_unambiguous_rewrite held decoded encoded
      (Store.sameIdentity_unknownJob now lua)⟩
  revived _ _ _ _ lua _ now _ _ held decoded _ encoded :=
    sturdy_and_unambiguous_rewrite held decoded encoded (Store.sameIdentity_revivedJob now lua)
  kept _ _ name _ lua now _ _ held decoded encoded :=
    ⟨name, sturdy_and_unambiguous_rewrite held decoded encoded
      (Store.sameIdentity_unknownJob now lua)⟩

variable {deployment : Deployment} {state : State}

/-- Every payload that a script takes out of a sorted set is put back, however the script
ends, if the keys of the run and of the script are kept apart. A job that was on the set, and
nowhere else, is still there if the script did not take it out, and otherwise it is on the queue
of its name or among the dead jobs, and nowhere else. -/
theorem relocated (reached : (system deployment).Reachable (fun state event =>
      Rewritable state event ∧ PlainKeys deployment state event) state)
    (script : ZSetScript) (_plain : ∀ name ∈ script.known, Key.Plain name) :
    ∃ removed, Store.Relocated script.key script.known state.redis removed
        (script.run state.redis) ∧
      ∀ raw ∈ (state.redis.zset script.key).members, ∀ jobID name, raw.hasID jobID →
        raw.textField "name" = some name →
        state.redis.Placed jobID (some (.zset script.key)) →
        ((∀ payload ∈ removed, payload.hasID jobID = false) ∧
          (script.run state.redis).Placed jobID (some (.zset script.key))) ∨
        (script.run state.redis).Placed jobID (some (.list (.jobs name))) ∨
          (script.run state.redis).Placed jobID (some (.zset .dead)) := by
  have contract :=
    (sturdyContract deployment).reachable (reached.mono fun _ _ both => both.1)
  have sturdy : ∀ raw ∈ (state.redis.zset script.key).members, raw.Sturdy := by
    intro raw member
    obtain ⟨_, sturdy, -⟩ := contract.store.zsets script.key raw member
    exact sturdy
  obtain ⟨removed, moved⟩ := script.relocated_run sturdy
  refine ⟨removed, moved, ?_⟩
  intro raw member jobID name own named placed
  exact moved.placed (placed.names member own named) placed

/-- One job is scheduled. -/
def oneScheduled (name : String) (args : Args) : State :=
  { emptyState with
    redis := emptyState.redis.zadd .scheduled 5
      (.json (Enqueuer.plainJob name "1" 0 args).serialize) }

theorem reachable_oneScheduled {scope : State → Event → Prop} {name : String} {args : Args}
    (allowed : scope emptyState (.enqueuer (.enqueueAt name "1" 0 args 5))) :
    (system single).Reachable scope (oneScheduled name args) :=
  .step (.initial initial_emptyState) allowed rfl

theorem placed_oneScheduled (name : String) (args : Args) :
    (oneScheduled name args).redis.Placed "1" (some (.zset .scheduled)) := by
  apply Store.Placed.zadd_own
  · intro place
    cases place with
    | list key | zset key => exact ⟨by simp, fun _ => rfl⟩
  · exact decide_eq_true (Enqueuer.plainJob name "1" 0 args).textField_serialize_id

theorem relocated_one_scheduled :
    (system single).Reachable (fun state event =>
        Rewritable state event ∧ PlainKeys single state event) (oneScheduled "send" none) ∧
      (oneScheduled "send" none).redis.Placed "1" (some (.zset .scheduled)) ∧
      ∃ removed, Store.Relocated .scheduled ["send"] (oneScheduled "send" none).redis removed
          ((ZSetScript.zremLpush .scheduled ["send"] 5).run (oneScheduled "send" none).redis) ∧
        (((∀ payload ∈ removed, payload.hasID "1" = false) ∧
          ((ZSetScript.zremLpush .scheduled ["send"] 5).run (oneScheduled "send" none).redis).Placed
            "1" (some (.zset .scheduled))) ∨
        ((ZSetScript.zremLpush .scheduled ["send"] 5).run (oneScheduled "send" none).redis).Placed
          "1" (some (.list (.jobs "send"))) ∨
        ((ZSetScript.zremLpush .scheduled ["send"] 5).run (oneScheduled "send" none).redis).Placed
          "1" (some (.zset .dead))) := by
  have reached : (system single).Reachable (fun state event =>
      Rewritable state event ∧ PlainKeys single state event) (oneScheduled "send" none) :=
    reachable_oneScheduled ⟨show Job.Sturdy _ by decide +kernel, by decide +kernel⟩
  have placed := placed_oneScheduled "send" none
  obtain ⟨removed, moved, places⟩ := relocated reached (.zremLpush .scheduled ["send"] 5)
    (by decide)
  refine ⟨reached, placed, removed, moved, ?_⟩
  exact places (.json (Enqueuer.plainJob "send" "1" 0 none).serialize) (.head _) "1" "send"
    (by decide +kernel) (Enqueuer.plainJob "send" "1" 0 none).textField_serialize_name placed

/-- A scheduled job without a name, and one with a number that is no double: the script takes
the job out and aborts. -/
theorem lost_by_aborted_script :
    [("", none), ("send", some [("amount", Json.num (.real (10 ^ 400)))])].Forall fun job =>
      (system single).Reachable (fun _ _ => True) (oneScheduled job.1 job.2) ∧
      (oneScheduled job.1 job.2).redis.Placed "1" (some (.zset .scheduled)) ∧
      ((oneScheduled job.1 job.2).redis.redisLuaZremLpushCmd .scheduled ["send"] 5).2 = .error ∧
      ((oneScheduled job.1 job.2).redis.redisLuaZremLpushCmd .scheduled ["send"] 5).1.Placed "1"
        none := by
  have lost : ∀ name args,
      (Cjson.decode (.json (Enqueuer.plainJob name "1" 0 args).serialize)).isSome →
      ((oneScheduled name args).redis.redisLuaZremLpushCmd .scheduled ["send"] 5).2 = .error →
      ((oneScheduled name args).redis.redisLuaZremLpushCmd .scheduled ["send"] 5).1.Placed "1"
        none := by
    intro name args decodes aborted
    have own : RawJSON.hasID "1" (.json (Enqueuer.plainJob name "1" 0 args).serialize) :=
      decide_eq_true (Enqueuer.plainJob name "1" 0 args).textField_serialize_id
    rw [Store.redisLuaZremLpushCmd_of_error rfl decodes aborted]
    exact (placed_oneScheduled name args).zrem_own own (.head _)
  refine ⟨⟨reachable_oneScheduled trivial, placed_oneScheduled _ _, ?_, lost _ _ ?_ ?_⟩,
    reachable_oneScheduled trivial, placed_oneScheduled _ _, ?_, lost _ _ ?_ ?_⟩
  all_goals decide +kernel

end System
