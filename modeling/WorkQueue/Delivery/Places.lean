import WorkQueue.Foundation.Placement
import WorkQueue.System.Payloads

/-! # Where a job is

The places of a job are the lists and the sorted sets, and its copies there are the
payloads with its identifier. The commands of the store take a payload out of a place
or put one into a place, and scripts that rewrite a payload keep its identifier, so a
script moves a job from one place to another (`Store.Placed`).
-/

/-- A list or a sorted set. -/
inductive Place where
  | list (key : ListKey)
  | zset (key : ZSetKey)
  deriving DecidableEq

/-- Whether a payload carries the identifier of a job. -/
def RawJSON.hasID (jobID : String) (raw : RawJSON) : Bool := raw.textField "id" = some jobID

/-- A payload that a script rewrites keeps its identifier. -/
theorem RawJSON.hasID_rewritten {jobID : String} {raw written : RawJSON} {lua edited : Json}
    (identified : ∃ id, raw.textField "id" = some id) (decoded : Cjson.decode raw = some lua)
    (encoded : Cjson.encode edited = some written) (same : Store.SameIdentity lua edited) :
    (∃ id, written.textField "id" = some id) ∧ written.hasID jobID = raw.hasID jobID := by
  obtain ⟨id, present⟩ := identified
  have kept : written.textField "id" = some id := by
    rw [Cjson.textField_encode encoded, same.id]
    exact Cjson.textField_decode decoded present
  refine ⟨⟨id, kept⟩, ?_⟩
  rw [hasID, hasID, kept, present]

namespace Store

variable {redis next : Store} {jobID : String} {raw : RawJSON} {location : Option Place}

/-- The payloads of a job in a place. -/
def copies (redis : Store) (jobID : String) : Place → ℕ
  | .list key => (redis.list key).countP (RawJSON.hasID jobID)
  | .zset key => (redis.zset key).members.countP (RawJSON.hasID jobID)

/-- The job is at the location and nowhere else, or nowhere at all. -/
def Placed (redis : Store) (jobID : String) (location : Option Place) : Prop :=
  PlacedAt (redis.copies jobID) location

namespace Placed

theorem congr (placed : redis.Placed jobID location) (list : next.list = redis.list)
    (zset : next.zset = redis.zset) : next.Placed jobID location := by
  refine PlacedAt.congr placed ?_
  intro place
  cases place with
  | list key => rw [copies, copies, list]
  | zset key => rw [copies, copies, zset]

theorem mem_list {key : ListKey} (placed : redis.Placed jobID location)
    (own : raw.hasID jobID) (member : raw ∈ redis.list key) :
    location = some (.list key) :=
  placed.eq_of_pos (List.countP_pos_iff.mpr ⟨raw, member, own⟩)

theorem mem_zset {key : ZSetKey} (placed : redis.Placed jobID location)
    (own : raw.hasID jobID) (member : raw ∈ (redis.zset key).members) :
    location = some (.zset key) :=
  placed.eq_of_pos (List.countP_pos_iff.mpr ⟨raw, member, own⟩)

/-- A job that goes away from a place is nowhere. -/
theorem deleted (placed : redis.Placed jobID location) (place : Place)
    (changed : next.copies jobID place ≠ redis.copies jobID place)
    (fewer : next.copies jobID place ≤ redis.copies jobID place)
    (others : ∀ other, other ≠ place → next.copies jobID other = redis.copies jobID other) :
    next.Placed jobID none := by
  refine PlacedAt.take placed place ?_ others
  have here : location = some place := placed.eq_of_pos (by omega)
  have one := (placed place).1 here
  omega

/-- A job that does not go away from a place stays where it is. -/
theorem undeleted (placed : redis.Placed jobID location) {place : Place}
    (same : next.copies jobID place = redis.copies jobID place)
    (others : ∀ other, other ≠ place → next.copies jobID other = redis.copies jobID other) :
    next.Placed jobID location := by
  refine PlacedAt.congr placed ?_
  intro other
  by_cases here : other = place
  · rw [here, same]
  · exact others other here

section Lists

variable {key : ListKey}

theorem lpush_other (placed : redis.Placed jobID location) (other : raw.hasID jobID = false) :
    (redis.lpush key raw).Placed jobID location := by
  refine PlacedAt.congr placed ?_
  intro place
  cases place with
  | zset key => rfl
  | list there =>
      by_cases same : there = key
      · subst same
        rw [copies, list_lpush_self, List.countP_cons_of_neg (by simp [other]), copies]
      · rw [copies, list_lpush_of_ne same, copies]

theorem lpush_own (placed : redis.Placed jobID none) (own : raw.hasID jobID) :
    (redis.lpush key raw).Placed jobID (some (.list key)) := by
  refine PlacedAt.put placed ?_ ?_
  · rw [copies, list_lpush_self, List.countP_cons_of_pos own, copies]
  · intro place different
    cases place with
    | zset key => rfl
    | list there =>
        rw [copies, list_lpush_of_ne (fun same => different (by rw [same])), copies]

theorem lrem_other (placed : redis.Placed jobID location) (other : raw.hasID jobID = false) :
    (redis.lrem key raw).Placed jobID location := by
  refine PlacedAt.congr placed ?_
  intro place
  cases place with
  | zset key => rfl
  | list there =>
      by_cases same : there = key
      · subst same
        rw [copies, list_lrem_self, List.countP_erase, if_neg (by simp [other]), copies]
        rfl
      · rw [copies, list_lrem_of_ne same, copies]

theorem lrem_own (placed : redis.Placed jobID location) (own : raw.hasID jobID)
    (member : raw ∈ redis.list key) : (redis.lrem key raw).Placed jobID none := by
  refine PlacedAt.take placed (.list key) ?_ ?_
  · have positive : 0 < (redis.list key).countP (RawJSON.hasID jobID) :=
      List.countP_pos_iff.mpr ⟨raw, member, own⟩
    rw [copies, copies, list_lrem_self, List.countP_erase, if_pos ⟨member, own⟩]
    omega
  · intro place different
    cases place with
    | zset key => rfl
    | list there =>
        rw [copies, list_lrem_of_ne (fun same => different (by rw [same])), copies]

/-- A payload of another job moves between lists. -/
theorem move_other {source target : ListKey} {rest : List RawJSON}
    (placed : redis.Placed jobID location) (different : source ≠ target)
    (split : redis.list source = rest ++ [raw]) (other : raw.hasID jobID = false) :
    (redis.move source target rest raw).Placed jobID location := by
  rw [move_eq_lpush different]
  refine lpush_other (PlacedAt.congr placed ?_) other
  intro place
  cases place with
  | zset key => rfl
  | list there =>
      by_cases same : there = source
      · subst same
        simp only [copies, Function.update_self, split, List.countP_append, List.countP_singleton,
          other, Bool.false_eq_true, ↓reduceIte, Nat.add_zero]
      · simp only [copies, Function.update_of_ne same]

/-- A payload of the job moves between lists. -/
theorem move_own {source target : ListKey} {rest : List RawJSON}
    (placed : redis.Placed jobID location) (different : source ≠ target)
    (split : redis.list source = rest ++ [raw]) (own : raw.hasID jobID) :
    (redis.move source target rest raw).Placed jobID (some (.list target)) := by
  rw [move_eq_lpush different]
  refine lpush_own (PlacedAt.take placed (.list source) ?_ ?_) own
  · simp only [copies, Function.update_self, split, List.countP_append, List.countP_singleton,
      own, ↓reduceIte]
  · intro place elsewhere
    cases place with
    | zset key => rfl
    | list there =>
        have apart : there ≠ source := fun same => elsewhere (by rw [same])
        simp only [copies, Function.update_of_ne apart]

end Lists

section ZSets

variable {key : ZSetKey} {score : Int}

theorem zadd_other (placed : redis.Placed jobID location) (other : raw.hasID jobID = false) :
    (redis.zadd key score raw).Placed jobID location := by
  refine PlacedAt.congr placed ?_
  intro place
  cases place with
  | list key => rfl
  | zset there =>
      by_cases same : there = key
      · subst same
        simp only [copies, zadd, Function.update_self]
        exact SortedSet.countP_add_of_neg _ _ other
      · simp only [copies, zadd, Function.update_of_ne same]

theorem zadd_own (placed : redis.Placed jobID none) (own : raw.hasID jobID) :
    (redis.zadd key score raw).Placed jobID (some (.zset key)) := by
  refine PlacedAt.put placed ?_ ?_
  · have absent : raw ∉ (redis.zset key).members := by
      intro member
      exact nomatch placed.mem_zset own member
    simp only [copies, zadd, Function.update_self]
    exact SortedSet.countP_add_of_notMem _ _ own absent
  · intro place different
    cases place with
    | list key => rfl
    | zset there =>
        have apart : there ≠ key := fun same => different (by rw [same])
        simp only [copies, zadd, Function.update_of_ne apart]

theorem zrem_other (placed : redis.Placed jobID location) (other : raw.hasID jobID = false) :
    (redis.zrem key raw).Placed jobID location := by
  refine PlacedAt.congr placed ?_
  intro place
  cases place with
  | list key => rfl
  | zset there =>
      by_cases same : there = key
      · subst same
        simp only [copies, zrem, Function.update_self]
        exact SortedSet.countP_erase_of_neg _ other
      · simp only [copies, zrem, Function.update_of_ne same]

theorem zrem_own (placed : redis.Placed jobID location) (own : raw.hasID jobID)
    (member : raw ∈ (redis.zset key).members) : (redis.zrem key raw).Placed jobID none := by
  refine PlacedAt.take placed (.zset key) ?_ ?_
  · simp only [copies, zrem, Function.update_self]
    exact SortedSet.countP_erase_of_mem _ own member
  · intro place different
    cases place with
    | list key => rfl
    | zset there =>
        have apart : there ≠ key := fun same => different (by rw [same])
        simp only [copies, zrem, Function.update_of_ne apart]

end ZSets

end Placed

/-- A payload carries an identifier, and the one of the job can be rewritten by a script:
it has a name, and its numbers are doubles. -/
structure Traceable (jobID : String) (raw : RawJSON) : Prop where
  identified : ∃ id, raw.textField "id" = some id
  named : raw.hasID jobID → ∃ name, raw.textField "name" = some name ∧ name ≠ ""
  fit : raw.hasID jobID → ∀ document, raw = .json document → document.numbersFit

namespace Traceable

variable {lua edited : Json} {written : RawJSON}

/-- A rewritten payload belongs to the job if the original does. -/
theorem hasID_rewritten (traceable : Traceable jobID raw) (decoded : Cjson.decode raw = some lua)
    (encoded : Cjson.encode edited = some written) (same : SameIdentity lua edited) :
    written.hasID jobID = raw.hasID jobID :=
  (RawJSON.hasID_rewritten traceable.identified decoded encoded same).2

/-- A script finds the name of the job and can write it back. -/
theorem of_own (traceable : Traceable jobID raw) (own : raw.hasID jobID)
    (decoded : Cjson.decode raw = some lua) :
    (∃ name, (Cjson.index "name" lua).bind Cjson.concat = some name) ∧ Cjson.Encodable lua := by
  obtain ⟨name, present, nonempty⟩ := traceable.named own
  obtain ⟨indexed, encodable⟩ :=
    Cjson.index_and_encodable_of_decode decoded present nonempty (traceable.fit own)
  exact ⟨⟨name, indexed⟩, encodable⟩

end Traceable

namespace Placed

/-- The requeuer's script moves the job or leaves it alone. -/
theorem zremLpush (placed : redis.Placed jobID location) (key : ZSetKey) (known : List String)
    (now : Int64) (traceable : ∀ raw ∈ (redis.zset key).members, Traceable jobID raw) :
    ∃ after, (redis.redisLuaZremLpushCmd key known now).1.Placed jobID after ∧
      after.isSome = location.isSome := by
  have listed : ∀ {raw : RawJSON}, ((redis.zset key).upTo now.toInt).head? = some raw →
      raw ∈ (redis.zset key).members := fun due =>
    SortedSet.mem_of_mem_upTo (List.mem_of_head? due)
  have outcome := redis.redisLuaZremLpushCmd_cases key known now
  generalize redis.redisLuaZremLpushCmd key known now = result at outcome ⊢
  cases outcome with
  | nothing due | undecodable due decoded => exact ⟨location, placed, rfl⟩
  | @nameless raw lua due decoded named =>
      cases own : raw.hasID jobID with
      | false => exact ⟨location, placed.zrem_other own, rfl⟩
      | true =>
          obtain ⟨⟨name, found⟩, _⟩ := (traceable raw (listed due)).of_own own decoded
          rw [found] at named
          cases named
  | @unpushable raw lua name due decoded named member encoded =>
      cases own : raw.hasID jobID with
      | false => exact ⟨location, placed.zrem_other own, rfl⟩
      | true =>
          obtain ⟨_, encodable⟩ := (traceable raw (listed due)).of_own own decoded
          obtain ⟨written, success⟩ := (encodable_requeuedJob encodable now).exists_encode
          rw [success] at encoded
          cases encoded
  | @unburiable raw lua name due decoded named member encoded =>
      cases own : raw.hasID jobID with
      | false => exact ⟨location, placed.zrem_other own, rfl⟩
      | true =>
          obtain ⟨_, encodable⟩ := (traceable raw (listed due)).of_own own decoded
          obtain ⟨written, success⟩ := (encodable_unknownJob encodable now).exists_encode
          rw [success] at encoded
          cases encoded
  | @requeued raw pushed lua name due decoded named member encoded =>
      have same := (traceable raw (listed due)).hasID_rewritten decoded encoded
        (sameIdentity_requeuedJob now lua)
      cases own : raw.hasID jobID with
      | false => exact ⟨location, (placed.zrem_other own).lpush_other (same.trans own), rfl⟩
      | true =>
          refine ⟨_, (placed.zrem_own own (listed due)).lpush_own (same.trans own), ?_⟩
          rw [placed.mem_zset own (listed due)]
          rfl
  | @buried raw pushed lua name due decoded named member encoded =>
      have same := (traceable raw (listed due)).hasID_rewritten decoded encoded
        (sameIdentity_unknownJob now lua)
      cases own : raw.hasID jobID with
      | false => exact ⟨location, (placed.zrem_other own).zadd_other (same.trans own), rfl⟩
      | true =>
          refine ⟨_, (placed.zrem_own own (listed due)).zadd_own (same.trans own), ?_⟩
          rw [placed.mem_zset own (listed due)]
          rfl

section Revive

variable {known : List String} {now : Int64} {lua : Json}

/-- Requeueing another dead job leaves the job and its payload alone. -/
theorem requeueDeadJob_other (placed : redis.Placed jobID location)
    (traceable : Traceable jobID raw) (other : raw.hasID jobID = false)
    (decoded : Cjson.decode raw = some lua) :
    (redis.requeueDeadJob known now raw lua).1.Placed jobID location ∧
      ∀ kept, kept.hasID jobID → kept ∈ (redis.zset .dead).members →
        kept ∈ ((redis.requeueDeadJob known now raw lua).1.zset .dead).members := by
  have stays : ∀ kept, kept.hasID jobID → kept ∈ (redis.zset .dead).members →
      kept ∈ ((redis.zrem .dead raw).zset .dead).members := by
    intro kept own member
    simp only [zrem, Function.update_self, SortedSet.mem_erase]
    refine ⟨?_, member⟩
    rintro rfl
    rw [other] at own
    cases own
  have removed : (redis.zrem .dead raw).Placed jobID location := placed.zrem_other other
  have outcome := redis.requeueDeadJob_cases known now raw lua
  generalize redis.requeueDeadJob known now raw lua = result at outcome ⊢
  cases outcome with
  | nameless | unpushable | unkeepable => exact ⟨removed, stays⟩
  | revived named member encoded =>
      have same := traceable.hasID_rewritten decoded encoded
        (sameIdentity_revivedJob now lua)
      exact ⟨removed.lpush_other (same.trans other), stays⟩
  | kept named member encoded =>
      have same := traceable.hasID_rewritten decoded encoded
        (sameIdentity_unknownJob now lua)
      refine ⟨removed.zadd_other (same.trans other), ?_⟩
      intro kept own member
      simp only [zadd, Function.update_self, SortedSet.mem_add]
      exact .inr (stays kept own member)

/-- Requeueing the dead job itself moves it to its queue or keeps it among the dead. -/
theorem requeueDeadJob_own (placed : redis.Placed jobID location)
    (traceable : Traceable jobID raw) (own : raw.hasID jobID)
    (member : raw ∈ (redis.zset .dead).members) (decoded : Cjson.decode raw = some lua) :
    ∃ place, (redis.requeueDeadJob known now raw lua).1.Placed jobID (some place) := by
  obtain ⟨⟨name, found⟩, encodable⟩ := traceable.of_own own decoded
  have removed := placed.zrem_own own member
  have outcome := redis.requeueDeadJob_cases known now raw lua
  generalize redis.requeueDeadJob known now raw lua = result at outcome ⊢
  cases outcome with
  | nameless named =>
      rw [found] at named
      cases named
  | unpushable named listed encoded =>
      obtain ⟨written, success⟩ := (encodable_revivedJob encodable now).exists_encode
      rw [success] at encoded
      cases encoded
  | unkeepable named listed encoded =>
      obtain ⟨written, success⟩ := (encodable_unknownJob encodable now).exists_encode
      rw [success] at encoded
      cases encoded
  | revived named listed encoded =>
      have same := traceable.hasID_rewritten decoded encoded
        (sameIdentity_revivedJob now lua)
      exact ⟨_, removed.lpush_own (same.trans own)⟩
  | kept named listed encoded =>
      have same := traceable.hasID_rewritten decoded encoded
        (sameIdentity_unknownJob now lua)
      exact ⟨_, removed.zadd_own (same.trans own)⟩

/-- What the loops over dead payloads keep: the job stays where it is or moves, and a
payload of it that is still to be visited is still among the dead, the only one. -/
structure Visiting (redis : Store) (jobID : String) (present : Bool) (raws : List RawJSON) :
    Prop where
  placed : ∃ location, redis.Placed jobID location ∧ location.isSome = present
  traceable : ∀ raw ∈ raws, Traceable jobID raw
  once : raws.countP (RawJSON.hasID jobID) ≤ 1
  dead : ∀ raw ∈ raws, raw.hasID jobID → raw ∈ (redis.zset .dead).members

namespace Visiting

variable {present : Bool} {raws : List RawJSON}

theorem tail (visiting : Visiting redis jobID present (raw :: raws)) :
    Visiting redis jobID present raws where
  placed := visiting.placed
  traceable other member := visiting.traceable other (List.mem_cons_of_mem _ member)
  once := ((List.sublist_cons_self raw raws).countP_le).trans visiting.once
  dead other member := visiting.dead other (List.mem_cons_of_mem _ member)

theorem requeueDeadJob (visiting : Visiting redis jobID present (raw :: raws))
    (known : List String) (now : Int64) (decoded : Cjson.decode raw = some lua) :
    Visiting (redis.requeueDeadJob known now raw lua).1 jobID present raws := by
  have rest := visiting.tail
  obtain ⟨location, placed, some⟩ := visiting.placed
  have traceable := visiting.traceable raw List.mem_cons_self
  cases own : raw.hasID jobID with
  | false =>
      obtain ⟨moved, stays⟩ := placed.requeueDeadJob_other traceable own decoded
      exact ⟨⟨location, moved, some⟩, rest.traceable, rest.once,
        fun other member mine => stays other mine (rest.dead other member mine)⟩
  | true =>
      have member := visiting.dead raw List.mem_cons_self own
      obtain ⟨place, moved⟩ := placed.requeueDeadJob_own traceable own member decoded
      have last : raws.countP (RawJSON.hasID jobID) = 0 := by
        have once := visiting.once
        rw [List.countP_cons_of_pos own] at once
        omega
      refine ⟨⟨_, moved, ?_⟩, rest.traceable, rest.once, ?_⟩
      · rw [← some, placed.mem_zset own member]
        rfl
      · intro other inside mine
        exact (List.countP_eq_zero.mp last other inside mine).elim

theorem requeueRun {next : Store} (visiting : Visiting redis jobID present raws)
    (run : RequeueRun known now raws redis next) :
    ∃ location, next.Placed jobID location ∧ location.isSome = present := by
  induction run with
  | done => exact visiting.placed
  | skipped _ ih => exact ih visiting.tail
  | requeued decoded _ ih => exact ih (visiting.requeueDeadJob known now decoded)

end Visiting

end Revive

section Delete

variable {key : ZSetKey} {wanted : String} {raws : List RawJSON}

/-- Deleting other jobs leaves the job alone. -/
theorem deleteLoop_other (placed : redis.Placed jobID location) (other : wanted ≠ jobID)
    (deleted : ℕ × Option RawJSON) :
    (Store.deleteLoop key wanted raws redis deleted).1.Placed jobID location := by
  refine deleteLoop_rec (fun _ raw found placed => placed.zrem_other ?_) raws deleted placed
  by_contra own
  obtain ⟨lua, decoded, indexed⟩ := Option.bind_eq_some_iff.mp found
  have present : raw.textField "id" = some jobID :=
    of_decide_eq_true (Bool.eq_true_of_not_eq_false own)
  have same := Cjson.textField_decode decoded present
  rw [Cjson.textField_of_index indexed] at same
  exact other (Option.some.inj same)

/-- Deleting jobs only takes payloads out of the sorted set. -/
theorem deleteLoop_copies (redis : Store) (jobID : String) (deleted : ℕ × Option RawJSON) :
    (Store.deleteLoop key wanted raws redis deleted).1.copies jobID (.zset key) ≤
        redis.copies jobID (.zset key) ∧
      ∀ place, place ≠ .zset key →
        (Store.deleteLoop key wanted raws redis deleted).1.copies jobID place =
          redis.copies jobID place := by
  refine deleteLoop_rec (fun store raw _ before => ?_) raws deleted
    ⟨Nat.le_refl _, fun _ _ => rfl⟩
  obtain ⟨fewer, others⟩ := before
  refine ⟨le_trans ?_ fewer, ?_⟩
  · simp only [copies, zrem, Function.update_self, SortedSet.members_erase]
    exact (List.erase_sublist).countP_le
  · intro place different
    rw [← others place different]
    cases place with
    | list key => rfl
    | zset there =>
        have apart : there ≠ key := fun same => different (by rw [same])
        simp only [copies, zrem, Function.update_of_ne apart]

end Delete

end Placed

end Store
