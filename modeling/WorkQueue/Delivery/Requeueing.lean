import WorkQueue.Accounting.Names
import WorkQueue.System.Database

/-! # Requeuers of different pools

All pools drain the same two sorted sets, and each requeuer knows only the names that its
own pool registers. A due job goes to its own queue exactly when the pool whose requeuer
takes it registers its name, and among the dead jobs otherwise
(`requeued_iff_registered`), no matter which other pools run.
-/

namespace Store

/-- The payload has been moved to the queue of a name, enqueued now. -/
def Requeued (before after : Store) (key : ZSetKey) (now : Int64) (raw : RawJSON)
    (name : String) : Prop :=
  ∃ job pushed, Cjson.decode raw = some job ∧ Cjson.encode (requeuedJob now job) = some pushed ∧
    after = (before.zrem key raw).lpush (.jobs name) pushed

/-- The payload has been moved to the dead jobs as an unknown one. -/
def Buried (before after : Store) (key : ZSetKey) (now : Int64) (raw : RawJSON) : Prop :=
  ∃ job pushed, Cjson.decode raw = some job ∧ Cjson.encode (unknownJob now job) = some pushed ∧
    after = (before.zrem key raw).zadd .dead now.toInt pushed

variable {before after : Store} {key : ZSetKey} {now : Int64} {raw : RawJSON} {name : String}

/-- A payload is not moved to both. -/
theorem Requeued.not_buried (requeued : Requeued before after key now raw name) :
    ¬ Buried before after key now raw := by
  rintro ⟨_, _, _, _, buried⟩
  obtain ⟨_, pushed, _, _, queued⟩ := requeued
  have longer : after.list (.jobs name) = pushed :: before.list (.jobs name) := by
    rw [queued, list_lpush_self]
    rfl
  have same : after.list (.jobs name) = before.list (.jobs name) := by
    rw [buried]
    rfl
  exact List.cons_ne_self pushed _ (longer.symm.trans same)

/-- The requeuer's script pushes a due payload of a known name that it can rewrite. -/
theorem redisLuaZremLpushCmd_of_known {known : List String} {job : Json}
    (due : ((before.zset key).upTo now.toInt).head? = some raw)
    (decoded : Cjson.decode raw = some job) (named : raw.textField "name" = some name)
    (nonempty : name ≠ "") (fit : raw.numbersFit) (member : name ∈ known) :
    ∃ pushed, Cjson.encode (requeuedJob now job) = some pushed ∧
      before.redisLuaZremLpushCmd key known now =
        ((before.zrem key raw).lpush (.jobs name) pushed, .ok) := by
  obtain ⟨indexed, encodable⟩ := Cjson.index_and_encodable_of_decode decoded named nonempty
    fun document same => by rw [same] at fit; exact fit
  obtain ⟨pushed, requeued⟩ := (encodable_requeuedJob encodable now).exists_encode
  refine ⟨pushed, requeued, ?_⟩
  simp only [redisLuaZremLpushCmd, due, decoded, indexed, member, ↓reduceIte, requeued]

/-- What the requeuer's script does with a due payload that it can rewrite. -/
theorem redisLuaZremLpushCmd_of_due {known : List String}
    (due : ((before.zset key).upTo now.toInt).head? = some raw)
    (decodable : (Cjson.decode raw).isSome) (named : raw.textField "name" = some name)
    (nonempty : name ≠ "") (fit : raw.numbersFit) :
    name ∈ known ∧ Requeued before (before.redisLuaZremLpushCmd key known now).1 key now raw name ∨
      name ∉ known ∧ Buried before (before.redisLuaZremLpushCmd key known now).1 key now raw := by
  obtain ⟨job, decoded⟩ := Option.isSome_iff_exists.mp decodable
  by_cases member : name ∈ known
  · obtain ⟨pushed, requeued, executed⟩ :=
      redisLuaZremLpushCmd_of_known due decoded named nonempty fit member
    exact .inl ⟨member, job, pushed, decoded, requeued, by rw [executed]⟩
  · obtain ⟨indexed, encodable⟩ := Cjson.index_and_encodable_of_decode decoded named nonempty
      fun document same => by rw [same] at fit; exact fit
    obtain ⟨kept, buried⟩ := (encodable_unknownJob encodable now).exists_encode
    refine .inr ⟨member, job, kept, decoded, buried, ?_⟩
    simp only [redisLuaZremLpushCmd, due, decoded, indexed, member, ↓reduceIte, buried]

end Store

namespace System

variable {deployment : Deployment} {state next : State}

/-- In every state that is reached with keys that are kept apart, a requeuer of a pool whose
names keep them apart moves the due job to its own queue if and only if its pool registers the
name of the job, and to the dead jobs otherwise. -/
theorem requeued_iff_registered (reached : (system deployment).Reachable (fun state event =>
      OwnPayloads state event ∧ PlainKeys deployment state event) state)
    {id : PoolID} {key : ZSetKey} {now : Int64} {raw : RawJSON}
    (_plain : ∀ name ∈ (deployment.pool id).names, Key.Plain name)
    (due : ((state.redis.zset key).upTo now.toInt).head? = some raw)
    (decodable : (Cjson.decode raw).isSome) (fit : raw.numbersFit)
    (stepped : step deployment state (.pool id (.requeue key now)) = some next) :
    ∃ name, raw.textField "name" = some name ∧ (name ≠ "" →
      (state.redis.Requeued next.redis key now raw name ↔ name ∈ (deployment.pool id).names) ∧
      (state.redis.Buried next.redis key now raw ↔ name ∉ (deployment.pool id).names)) := by
  have names := (namesContract deployment).reachable (reached.mono fun _ _ both => both.1)
  obtain ⟨name, ⟨named, -, -⟩⟩ := names.store.zsets key raw
    (SortedSet.mem_of_mem_upTo (List.mem_of_head? due))
  refine ⟨name, named, fun nonempty => ?_⟩
  have executed : next.redis =
      (state.redis.redisLuaZremLpushCmd key (deployment.pool id).names now).1 := by
    obtain ⟨pool, _, moved⟩ := step_pool stepped
    generalize next.redis = redis at moved ⊢
    cases moved with
    | requeued => rfl
  rw [executed]
  rcases Store.redisLuaZremLpushCmd_of_due due decodable named nonempty fit with
    ⟨known, requeued⟩ | ⟨unknown, buried⟩
  · exact ⟨iff_of_true requeued known,
      iff_of_false requeued.not_buried (not_not_intro known)⟩
  · exact ⟨iff_of_false (fun requeued => requeued.not_buried buried) unknown,
      iff_of_true buried unknown⟩

/-- The payload of a job that is enqueued without arguments. -/
def scheduledPayload : RawJSON := .json (Enqueuer.plainJob "send" "1" 0 none).serialize

theorem requeued_iff_registered_by_same_pool :
    ∃ state next, (system single).Reachable (fun state event =>
        OwnPayloads state event ∧ PlainKeys single state event) state ∧
      step single state (.pool "A" (.requeue .scheduled 5)) = some next ∧
      state.redis.Requeued next.redis .scheduled 5 scheduledPayload "send" := by
  have run : ∃ state, (system single).Reachable (fun state event =>
        OwnPayloads state event ∧ PlainKeys single state event) state ∧
      ((state.redis.zset .scheduled).upTo 5).head? = some scheduledPayload ∧
      (step single state (.pool "A" (.requeue .scheduled 5))).isSome :=
    TransitionSystem.Reachable.exists_of_run
      (boot ["send"] "A" ++ ([.enqueuer (.enqueueAt "send" "1" 0 none 5)] : List Event))
      initial_emptyState (by decide +kernel)
  obtain ⟨state, reached, due, enabled⟩ := run
  obtain ⟨next, stepped⟩ := Option.isSome_iff_exists.mp enabled
  obtain ⟨name, named, settled⟩ :=
    requeued_iff_registered reached (by decide) due (by decide +kernel) (by decide +kernel) stepped
  obtain rfl : "send" = name := Option.some.inj ((by decide : scheduledPayload.textField "name" =
    some "send").symm.trans named)
  exact ⟨state, next, reached, stepped, (settled (by decide)).1.mpr (by decide)⟩

/-- A deployment in which one pool registers a name and the others another one. -/
def mixed : Deployment where
  ns := "work"
  pool id :=
    { jobTypes := [{ name := if id = "A" then "send" else "other", priority := 1, maxFails := 4 }]
      distinct := List.nodup_singleton _
      concurrency := 1, workerIDs := ["w"], host := "host", pid := 1 }

theorem buried_by_other_pool :
    ∃ state, (system mixed).Reachable OwnPayloads state ∧
      (state.pools "A").phase = .running ∧ "send" ∈ (mixed.pool "A").names ∧
      state.redis.list (.jobs "send") = [] ∧
      (state.redis.zset .dead).members.map (fun raw => raw.textField "name") = [some "send"] :=
  TransitionSystem.Reachable.exists_of_run
    (boot ["send"] "A" ++ boot ["other"] "B" ++
      ([.enqueuer (.enqueueAt "send" "1" 0 none 5), .pool "B" (.requeue .scheduled 5)] :
        List Event))
    initial_emptyState (by decide +kernel)

end System
