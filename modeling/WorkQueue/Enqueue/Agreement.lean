import WorkQueue.Enqueue.Alignment

/-! # Bulk enqueueing against single calls

A bulk enqueue serves the same items as the single calls do, in another order
(`Enqueuer.bulkEnqueue_eq`, from what its commands and replies are). What a list
of items leaves on the queues and among the scheduled jobs depends only on which of them are
accepted, and the unique keys are a registry of first claims and last values. Therefore the
two agree if and only if the order of the bulk enqueue keeps the first item of every free key
and the value of the last one (`Enqueuer.bulkEnqueue_agrees_iff`).
-/

theorem Store.SameUpToOrder.saddKnownJobs {first second : Store}
    (same : first.SameUpToOrder second) (names : List String) :
    (Pool.saddKnownJobs first names).SameUpToOrder (Pool.saddKnownJobs second names) := by
  refine ⟨?_, same.lists, same.zsets⟩
  have known : second.knownJobs = first.knownJobs := by rw [same.frame]
  rw [Pool.saddKnownJobs, Pool.saddKnownJobs, known, same.frame]

namespace Enqueuer

section Contents

variable {ns : String} {epochSeconds : Int64} {store : Store} {items others : List BulkItem}

/-- At most the lists, the sorted sets and the unique keys differ. -/
def SameButJobs (before after : Store) : Prop :=
  after = { before with list := after.list, zset := after.zset, unique := after.unique }

theorem SameButJobs.trans {first second third : Store} (left : SameButJobs first second)
    (right : SameButJobs second third) : SameButJobs first third := by
  unfold SameButJobs at *
  rw [right, left]

theorem sameButJobs_enqueueItem (item : BulkItem) :
    SameButJobs store (enqueueItem ns epochSeconds store item).1 := by
  rw [enqueueItem_fst]
  split
  · rfl
  · unfold placeItem
    split <;> rfl

theorem sameButJobs_enqueueItems :
    SameButJobs store (enqueueItems ns epochSeconds store items) := by
  induction items generalizing store with
  | nil => rfl
  | cons item items ih => exact (sameButJobs_enqueueItem item).trans ih

/-- Whether the job of an item goes to a list. -/
def queuedIn (key : ListKey) (item : BulkItem) : Bool :=
  item.1.runAtEpoch = 0 && key = .jobs item.1.name

theorem list_enqueueItem (item : BulkItem) (key : ListKey) :
    (enqueueItem ns epochSeconds store item).1.list key =
      if !(enqueueItem ns epochSeconds store item).2 && queuedIn key item then
        itemRaw ns epochSeconds item :: store.list key
      else store.list key := by
  rw [enqueueItem_fst]
  cases (enqueueItem ns epochSeconds store item).2 with
  | true => rfl
  | false =>
      unfold placeItem queuedIn
      by_cases later : item.1.runAtEpoch = 0
      · by_cases own : key = .jobs item.1.name
        · subst own
          simp [later, Store.list_lpush_self]
        · simp [later, own, Store.list_lpush_of_ne own]
      · simp [later, Store.zadd]

/-- The lists after serving items have the accepted ones before what they had. -/
theorem list_enqueueItems (nodup : items.Nodup) (key : ListKey) :
    ((enqueueItems ns epochSeconds store items).list key).Perm
      ((items.filter fun item => !skips ns store items item && queuedIn key item).map
        (itemRaw ns epochSeconds) ++ store.list key) := by
  induction items generalizing store with
  | nil => exact .refl _
  | cons item items ih =>
      obtain ⟨absent, nodup⟩ := List.nodup_cons.mp nodup
      have later : ((enqueueItems ns epochSeconds (enqueueItem ns epochSeconds store item).1
          items).list key).Perm _ := ih nodup
      have tail : (items.filter fun other => !skips ns store (item :: items) other &&
            queuedIn key other) =
          items.filter fun other => !skips ns (enqueueItem ns epochSeconds store item).1 items
            other && queuedIn key other := by
        refine List.filter_congr fun other member => ?_
        have distinct : other ≠ item := fun same => absent (same ▸ member)
        rw [skips_tail ns epochSeconds distinct]
      refine later.trans ?_
      rw [list_enqueueItem, List.filter_cons, tail, skips_head ns epochSeconds]
      split
      · exact List.perm_middle
      · exact .refl _

/-- Whether the job of an item goes to a sorted set. -/
def scheduledIn (key : ZSetKey) (item : BulkItem) : Bool :=
  item.1.runAtEpoch ≠ 0 && key = .scheduled

/-- The entry of an item among the scheduled jobs. -/
def itemEntry (ns : String) (epochSeconds : Int64) (item : BulkItem) : Int × RawJSON :=
  (item.1.runAtEpoch.toInt, itemRaw ns epochSeconds item)

theorem zset_enqueueItem (item : BulkItem) (key : ZSetKey) (entry : Int × RawJSON) :
    entry ∈ ((enqueueItem ns epochSeconds store item).1.zset key).entries ↔
      if !(enqueueItem ns epochSeconds store item).2 && scheduledIn key item then
        entry = itemEntry ns epochSeconds item ∨
          entry ∈ (store.zset key).entries ∧ entry.2 ≠ itemRaw ns epochSeconds item
      else entry ∈ (store.zset key).entries := by
  rw [enqueueItem_fst]
  cases (enqueueItem ns epochSeconds store item).2 with
  | true => rfl
  | false =>
      unfold placeItem scheduledIn
      by_cases now : item.1.runAtEpoch = 0
      · simp [now, Store.lpush]
      · by_cases own : key = .scheduled
        · subst own
          simp [now, Store.zset_zadd_self, SortedSet.mem_entries_add, itemEntry]
        · simp [now, own, Store.zset_zadd_of_ne _ own]

/-- The sorted sets after serving items with distinct payloads have the entries of the accepted
ones, and what they had of other payloads. -/
theorem zset_enqueueItems (distinct : (items.map (itemRaw ns epochSeconds)).Nodup) (key : ZSetKey)
    (entry : Int × RawJSON) :
    entry ∈ ((enqueueItems ns epochSeconds store items).zset key).entries ↔
      (∃ item ∈ items, (!skips ns store items item && scheduledIn key item) ∧
        entry = itemEntry ns epochSeconds item) ∨
      entry ∈ (store.zset key).entries ∧
        ∀ item ∈ items, (!skips ns store items item && scheduledIn key item) →
          entry.2 ≠ itemRaw ns epochSeconds item := by
  induction items generalizing store with
  | nil => simp [enqueueItems]
  | cons item items ih =>
      obtain ⟨absent, nodup⟩ := List.nodup_cons.mp distinct
      have different : ∀ other ∈ items,
        itemRaw ns epochSeconds item ≠ itemRaw ns epochSeconds other :=
        fun other member same => absent (same ▸ List.mem_map_of_mem member)
      have tail : ∀ other ∈ items, skips ns store (item :: items) other =
          skips ns (enqueueItem ns epochSeconds store item).1 items other :=
        fun other member => skips_tail ns epochSeconds (fun same => different other member
          (congrArg _ same.symm)) items
      have later : entry ∈ ((enqueueItems ns epochSeconds
          (enqueueItem ns epochSeconds store item).1 items).zset key).entries ↔ _ := ih nodup
      have front := @zset_enqueueItem ns epochSeconds store item key entry
      rw [← skips_head ns epochSeconds store item items] at front
      refine later.trans ?_
      have accepted : (∃ other ∈ items, (!skips ns store (item :: items) other &&
          scheduledIn key other) ∧ entry = itemEntry ns epochSeconds other) ↔ _ :=
        exists_congr fun other => and_congr_right fun member => by rw [tail other member]
      have others : (∀ other ∈ items, (!skips ns store (item :: items) other &&
          scheduledIn key other) → entry.2 ≠ itemRaw ns epochSeconds other) ↔ _ :=
        forall₂_congr fun other member => by rw [tail other member]
      simp only [List.mem_cons, exists_eq_or_imp, forall_eq_or_imp, front, accepted, others]
      have clear : entry = itemEntry ns epochSeconds item → ∀ other ∈ items,
          (!skips ns (enqueueItem ns epochSeconds store item).1 items other &&
            scheduledIn key other) → entry.2 ≠ itemRaw ns epochSeconds other := by
        rintro rfl other member -
        exact different other member
      by_cases placed : (!skips ns store (item :: items) item && scheduledIn key item) = true
      · simp only [placed, ↓reduceIte, true_and, forall_const]
        constructor
        · rintro (found | ⟨own | ⟨old, other⟩, rest⟩)
          · exact .inl (.inr found)
          · exact .inl (.inl own)
          · exact .inr ⟨old, other, rest⟩
        · rintro ((own | found) | ⟨old, other, rest⟩)
          · exact .inr ⟨.inl own, clear own⟩
          · exact .inl found
          · exact .inr ⟨.inr ⟨old, other⟩, rest⟩
      · simp only [placed, Bool.false_eq_true, ↓reduceIte, false_and, false_or, false_implies,
          true_and]

/-- Items with distinct identifiers have distinct payloads. -/
theorem nodup_itemRaw (distinct : (items.map Prod.snd).Nodup) :
    (items.map (itemRaw ns epochSeconds)).Nodup := by
  refine List.Nodup.of_map (RawJSON.textField "id") ?_
  have identifiers : (items.map (itemRaw ns epochSeconds)).map (RawJSON.textField "id") =
      (items.map Prod.snd).map some := by
    rw [List.map_map, List.map_map]
    exact List.map_congr_left fun item _ =>
      Job.textField_serialize_id (itemJob ns epochSeconds item)
  rw [identifiers]
  exact distinct.map (Option.some_injective _)

/-- Two orders of items that skip the same ones and leave the same unique keys leave the same
jobs. -/
theorem sameUpToOrder_enqueueItems (distinct : (items.map Prod.snd).Nodup)
    (reordered : others.Perm items)
    (skipped : ∀ item ∈ items, skips ns store others item = skips ns store items item)
    (unique : (enqueueItems ns epochSeconds store others).unique =
      (enqueueItems ns epochSeconds store items).unique) :
    (enqueueItems ns epochSeconds store others).SameUpToOrder
      (enqueueItems ns epochSeconds store items) := by
  have nodup : items.Nodup := distinct.of_map
  have raws : (items.map (itemRaw ns epochSeconds)).Nodup := nodup_itemRaw distinct
  refine ⟨?_, fun key => ?_, fun key entry => ?_⟩
  · have first : SameButJobs store (enqueueItems ns epochSeconds store others) :=
      sameButJobs_enqueueItems
    have second : SameButJobs store (enqueueItems ns epochSeconds store items) :=
      sameButJobs_enqueueItems
    unfold SameButJobs at first second
    rw [second, first, unique]
  · refine (list_enqueueItems (reordered.nodup_iff.mpr nodup) key).trans ?_
    refine .trans ?_ (list_enqueueItems nodup key).symm
    refine List.Perm.append_right _ (List.Perm.map _ ?_)
    refine (reordered.filter _).trans (.of_eq (List.filter_congr fun item member => ?_))
    rw [skipped item member]
  · rw [zset_enqueueItems ((reordered.map _).nodup_iff.mpr raws), zset_enqueueItems raws]
    refine or_congr (exists_congr fun item => ?_)
      (and_congr_right fun _ => forall_congr' fun item => ?_)
    · rw [reordered.mem_iff]
      exact and_congr_right fun member => by rw [skipped item member]
    · rw [reordered.mem_iff]
      exact forall_congr' fun member => by rw [skipped item member]

end Contents

section Agreement

variable {enqueuer : Enqueuer} {store : Store} {epochSeconds now : Int64} {items : List BulkItem}

/-- The pending names of a bulk enqueue are as good as the stale ones of the single calls, unless
the time of an unknown name is just over: the comparison is strict for the one, but not for the
others. -/
theorem knownJobs_pending_iff :
    store.knownJobs ∪ (enqueuer.pendingJobNames now items).toFinset =
        store.knownJobs ∪
          ((items.map fun item => item.1.name).filter (enqueuer.stale now)).toFinset ↔
      ∀ item ∈ items, enqueuer.knownJobs item.1.name = some now →
        item.1.name ∈ store.knownJobs := by
  simp only [Finset.ext_iff, Finset.mem_union, List.mem_toFinset, pendingJobNames,
    List.mem_dedup, List.mem_filter]
  constructor
  · intro same item member cached
    have stale : item.1.name ∈ items.map (fun item => item.1.name) ∧
        enqueuer.stale now item.1.name = true :=
      ⟨List.mem_map_of_mem member, by simp [Enqueuer.stale, cached]⟩
    rcases (same item.1.name).mpr (.inr stale) with known | ⟨_, pending⟩
    · exact known
    · simp [cached] at pending
  · intro expired name
    refine or_congr_right' fun unknown => and_congr_right fun listed => ?_
    obtain ⟨item, member, rfl⟩ := List.mem_map.mp listed
    unfold Enqueuer.stale
    cases cached : enqueuer.knownJobs item.1.name with
    | none => rfl
    | some time =>
        have other : time ≠ now := fun same => unknown (expired item member (by rw [cached, same]))
        simp only [decide_eq_true_eq, Bool.not_eq_true', decide_eq_false_iff_not]
        rw [Int64.lt_iff_toInt_lt, Int64.lt_iff_toInt_lt]
        have : time.toInt ≠ now.toInt := fun same => other (Int64.toInt_inj.mp same)
        omega

/-- What a bulk enqueue reports of its items. -/
theorem skipped_bulkResults (ns : String) (skipped : BulkItem → Bool) :
    (bulkResults ns epochSeconds items (items.map skipped)).map
      BulkEnqueueResult.enqueueSkipped = items.map skipped := by
  unfold bulkResults
  rw [List.map_zipWith]
  induction items with
  | nil => rfl
  | cons item items ih => rw [List.map_cons, List.zipWith_cons_cons, ih]

/-- The order of a bulk enqueue agrees with the listed one on a unique key: the key is taken,
or its first item stays the first; and its last item leaves the same value. -/
def Aligned (ns : String) (epochSeconds : Int64) (redis : RedisServer) (items : List BulkItem)
    (key : String) : Prop :=
  (redis.store.unique key = none →
    (Registry.own (itemKey ns) (bulkOrder ns epochSeconds redis.loaded items) key).head? =
      (Registry.own (itemKey ns) items key).head?) ∧
  (Registry.own (itemKey ns) (bulkOrder ns epochSeconds redis.loaded items) key).getLast?.map
      (itemValue ns epochSeconds) =
    (Registry.own (itemKey ns) items key).getLast?.map (itemValue ns epochSeconds)

/-- Skipping the same items and leaving the same unique keys is agreeing on every key. -/
theorem aligned_iff (ns : String) (epochSeconds : Int64) (redis : RedisServer)
    (items : List BulkItem) :
    ((∀ item ∈ items, skips ns redis.store (bulkOrder ns epochSeconds redis.loaded items) item =
          skips ns redis.store items item) ∧
        (enqueueItems ns epochSeconds redis.store
          (bulkOrder ns epochSeconds redis.loaded items)).unique =
            (enqueueItems ns epochSeconds redis.store items).unique) ↔
      ∀ key, Aligned ns epochSeconds redis items key := by
  have reordered := bulkOrder_perm ns epochSeconds redis.loaded items
  rw [unique_enqueueItems, unique_enqueueItems]
  refine Iff.trans (and_congr_left fun _ => ?_) (Registry.agree_iff reordered)
  refine ⟨fun same item member => ?_, fun same item member => ?_⟩
  · have flags := same item (reordered.mem_iff.mp member)
    rw [skips, skips, Bool.eq_iff_iff, decide_eq_true_eq, decide_eq_true_eq, not_iff_not] at flags
    exact flags
  · rw [skips, skips, Bool.eq_iff_iff, decide_eq_true_eq, decide_eq_true_eq, not_iff_not]
    exact same item (reordered.mem_iff.mpr member)

section Replies

variable (ns : String) (epochSeconds : Int64) {items : List BulkItem}

/-- The replies to the first commands say which of the direct items are skipped. -/
theorem statuses_itemCommands (nodup : items.Nodup) (redis : RedisServer) :
    ((items.zip (Connection.serveAll RedisServer.serve redis
        (items.map (itemCommand ns epochSeconds))).2).mapM
          fun pair => itemStatus pair.1.1.unique pair.2) =
      .ok (items.map fun item =>
        if direct ns epochSeconds redis.loaded item then
          some (skips ns redis.store (items.filter (direct ns epochSeconds redis.loaded)) item)
        else none) := by
  induction items generalizing redis with
  | nil => rfl
  | cons item items ih =>
      obtain ⟨absent, nodup⟩ := List.nodup_cons.mp nodup
      have served := serve_itemCommand ns epochSeconds redis item
      rw [List.map_cons, Connection.serveAll, List.zip_cons_cons, List.mapM_cons]
      split at served
      · next now =>
          obtain ⟨next, status⟩ := served
          have later := ih nodup
            { redis with store := (enqueueItem ns epochSeconds redis.store item).1 }
          simp only [next, status, later, List.filter_cons_of_pos now, List.map_cons, now,
            ↓reduceIte, skips_head ns epochSeconds, bind, Except.bind, pure, Except.pure]
          congr 2
          refine List.map_congr_left fun other member => ?_
          have distinct : other ≠ item := fun same => absent (same ▸ member)
          rw [skips_tail ns epochSeconds distinct]
      · next later =>
          obtain ⟨refused, unique⟩ := served
          have status : itemStatus item.1.unique .noScript = .ok none := if_pos unique
          simp only [refused, status, ih nodup redis, List.filter_cons_of_neg later, List.map_cons,
            later, bind, Except.bind, pure, Except.pure]
          rfl

/-- The replies to the scripts that are sent again say which items are skipped. -/
theorem statuses_replayed (nodup : items.Nodup) (unique : ∀ item ∈ items, item.1.unique = true)
    (redis : RedisServer) :
    (Connection.serveAll RedisServer.serve redis
        (items.map fun item => .eval (itemScript ns epochSeconds item))).2.mapM replayedStatus =
      .ok (items.map (skips ns redis.store items)) := by
  induction items generalizing redis with
  | nil => rfl
  | cons item items ih =>
      obtain ⟨absent, nodup⟩ := List.nodup_cons.mp nodup
      obtain ⟨own, unique⟩ := List.forall_mem_cons.mp unique
      have served : (itemScript ns epochSeconds item).execute redis.store = _ :=
        execute_itemScript own
      have later := ih nodup unique (redis.serve (.eval (itemScript ns epochSeconds item))).1
      rw [List.map_cons, Connection.serveAll, List.mapM_cons]
      simp only [RedisServer.serve, served] at later ⊢
      simp only [later, replayedStatus, List.map_cons, Bool.not_not, skips_head ns epochSeconds,
        bind, Except.bind, pure, Except.pure]
      congr 2
      refine List.map_congr_left fun other member => ?_
      have distinct : other ≠ item := fun same => absent (same ▸ member)
      rw [skips_tail ns epochSeconds distinct]

/-- The known jobs are added without an error. -/
theorem knownStatus_ok (enqueuer : Enqueuer) (now : Int64) (pending : List String)
    (redis : RedisServer) :
    ∃ knownJobs, enqueuer.knownStatus now pending (Connection.serveAll RedisServer.serve redis
      (knownCommands pending)).2.head? = .ok { enqueuer with knownJobs := knownJobs } := by
  unfold knownCommands
  split <;> exact ⟨_, rfl⟩

/-- Enough replicas are waited for. -/
theorem waitStatus_ok {enqueuer : Enqueuer} {redis : RedisServer}
    (replicated : 0 < enqueuer.minWaitReplicas →
      enqueuer.minWaitReplicas ≤ redis.replicas.headD 0) :
    enqueuer.waitStatus (Connection.serveAll RedisServer.serve redis
      enqueuer.waitCommands).2.head? = .ok () := by
  unfold waitCommands
  split
  · next waits => exact if_neg (not_lt.mpr (replicated waits))
  · rfl

/-- A bulk enqueue serves its items in its own order, adds the pending names to the known
jobs, and returns which items were skipped. -/
theorem bulkEnqueue_eq (enqueuer : Enqueuer) (redis : RedisServer) (now : Int64)
    (nodup : items.Nodup)
    (replicated : 0 < enqueuer.minWaitReplicas → ∃ first second rest,
      redis.replicas = first :: second :: rest ∧ enqueuer.minWaitReplicas ≤ first ∧
        enqueuer.minWaitReplicas ≤ second) :
    ∃ (conn : Conn RedisServer) (after : Enqueuer),
      enqueuer.bulkEnqueue RedisServer.serve { server := redis } epochSeconds now items =
        (conn, after, .ok (bulkResults enqueuer.ns epochSeconds items (items.map
          (skips enqueuer.ns redis.store
            (bulkOrder enqueuer.ns epochSeconds redis.loaded items))))) ∧
      conn.server.store = Pool.saddKnownJobs
        (enqueueItems enqueuer.ns epochSeconds redis.store
          (bulkOrder enqueuer.ns epochSeconds redis.loaded items))
        (enqueuer.pendingJobNames now items) := by
  obtain ⟨leftover, direct, -⟩ := bulkEnqueue_eq_direct RedisServer.serve enqueuer redis
    epochSeconds now items
  suffices done : ∃ final after, enqueuer.bulkDirect RedisServer.serve redis epochSeconds now
      items = (final, after, .ok (bulkResults enqueuer.ns epochSeconds items (items.map
        (skips enqueuer.ns redis.store
          (bulkOrder enqueuer.ns epochSeconds redis.loaded items))))) by
    obtain ⟨final, after, done⟩ := done
    rw [done] at direct
    exact ⟨_, after, direct, store_of_ok done⟩
  have first := server_itemCommands enqueuer.ns epochSeconds redis items
  have read := statuses_itemCommands enqueuer.ns epochSeconds nodup redis
  have statuses := @fillStatuses_bulkOrder enqueuer.ns epochSeconds items redis.loaded redis.store
    (enqueuer.pendingJobNames now items)
  unfold bulkDirect
  generalize Connection.serveAll RedisServer.serve redis
    (items.map (itemCommand enqueuer.ns epochSeconds)) = served at first read ⊢
  obtain ⟨knownJobs, known⟩ :=
    knownStatus_ok enqueuer now (enqueuer.pendingJobNames now items) served.1
  have second := server_knownCommands served.1 (enqueuer.pendingJobNames now items)
  simp only [read, known, failedItems_map]
  generalize Connection.serveAll RedisServer.serve served.1
    (knownCommands (enqueuer.pendingJobNames now items)) = told at second ⊢
  rw [first] at second
  have waited : ({ enqueuer with knownJobs := knownJobs } : Enqueuer).waitStatus
      (Connection.serveAll RedisServer.serve told.1 enqueuer.waitCommands).2.head? = .ok () := by
    refine @waitStatus_ok { enqueuer with knownJobs := knownJobs } told.1 fun waits => ?_
    obtain ⟨_, _, _, replicas, one, -⟩ := replicated waits
    rw [second, replicas]
    exact one
  have third := server_waitCommands enqueuer told.1
  simp only [waited]
  generalize Connection.serveAll RedisServer.serve told.1 enqueuer.waitCommands = closed
    at third ⊢
  rw [second] at third
  by_cases nothing : (items.filter fun item =>
      !Enqueuer.direct enqueuer.ns epochSeconds redis.loaded item) = []
  · rw [nothing, List.map_nil] at statuses
    simp only [nothing, ↓reduceIte, statuses]
    exact ⟨_, _, rfl⟩
  · have unique := fun item => @unique_of_deferred enqueuer.ns epochSeconds items redis.loaded item
    have again := statuses_replayed enqueuer.ns epochSeconds (nodup.filter _) unique closed.1
    have fourth := (server_replayed enqueuer.ns epochSeconds unique closed.1).2
    unfold replayDirect
    simp only [if_neg nothing, again]
    generalize Connection.serveAll RedisServer.serve closed.1 ((items.filter fun item =>
      !Enqueuer.direct enqueuer.ns epochSeconds redis.loaded item).map fun item =>
        .eval (itemScript enqueuer.ns epochSeconds item)) = replayed at fourth ⊢
    have rewaited := @waitStatus_ok { enqueuer with knownJobs := knownJobs } replayed.1
      fun waits => by
        obtain ⟨_, _, _, replicas, -, two⟩ := replicated waits
        rw [fourth, third, replicas, if_pos waits]
        exact two
    simp only [rewaited, third, statuses, bind, Except.bind, pure, Except.pure]
    exact ⟨_, _, rfl⟩

end Replies

/-- For every list of items with distinct identifiers, every store and every state of the
script cache, a bulk enqueue succeeds; and it skips the items that the single calls skip and
leaves the same store up to the order of lists if and only if its order agrees with the listed
one on every unique key, and no name that the enqueuer takes for known until this very second is
unknown. -/
theorem bulkEnqueue_agrees_iff (enqueuer : Enqueuer) (redis : RedisServer)
    (epochSeconds now : Int64) (items : List BulkItem) (distinct : (items.map Prod.snd).Nodup)
    (replicated : 0 < enqueuer.minWaitReplicas → ∃ first second rest,
      redis.replicas = first :: second :: rest ∧ enqueuer.minWaitReplicas ≤ first ∧
        enqueuer.minWaitReplicas ≤ second) :
    ∃ conn after results,
      enqueuer.bulkEnqueue RedisServer.serve { server := redis } epochSeconds now items =
        (conn, after, .ok results) ∧
      (results.map BulkEnqueueResult.enqueueSkipped =
            (enqueuer.enqueueEach redis.store epochSeconds now items).2.2 ∧
          conn.server.store.SameUpToOrder
            (enqueuer.enqueueEach redis.store epochSeconds now items).1 ↔
        (∀ key, Aligned enqueuer.ns epochSeconds redis items key) ∧
          ∀ item ∈ items, enqueuer.knownJobs item.1.name = some now →
            item.1.name ∈ redis.store.knownJobs) := by
  have nodup : items.Nodup := distinct.of_map
  have reordered := bulkOrder_perm enqueuer.ns epochSeconds redis.loaded items
  obtain ⟨conn, after, returned, store⟩ :=
    bulkEnqueue_eq epochSeconds enqueuer redis now nodup replicated
  obtain ⟨each, flags⟩ := @enqueueEach_eq enqueuer epochSeconds now redis.store items nodup
  have known : ∀ order : List BulkItem,
      (enqueueItems enqueuer.ns epochSeconds redis.store order).knownJobs =
        redis.store.knownJobs := by
    intro order
    have same : SameButJobs redis.store
      (enqueueItems enqueuer.ns epochSeconds redis.store order) := sameButJobs_enqueueItems
    rw [same]
  refine ⟨conn, after, _, returned, ?_⟩
  rw [skipped_bulkResults, flags, store, each, ← aligned_iff, List.map_inj_left,
    ← knownJobs_pending_iff, and_assoc]
  refine and_congr_right fun skipped => ⟨fun same => ⟨?_, ?_⟩, fun ⟨unique, names⟩ => ?_⟩
  · exact (congrArg Store.unique same.frame).symm
  · have both := (congrArg Store.knownJobs same.frame).symm
    simpa only [Pool.saddKnownJobs, known] using both
  · have contents := sameUpToOrder_enqueueItems distinct reordered skipped unique
    have pending : Pool.saddKnownJobs (enqueueItems enqueuer.ns epochSeconds redis.store
          (bulkOrder enqueuer.ns epochSeconds redis.loaded items))
          (enqueuer.pendingJobNames now items) =
        Pool.saddKnownJobs (enqueueItems enqueuer.ns epochSeconds redis.store
          (bulkOrder enqueuer.ns epochSeconds redis.loaded items))
          ((items.map fun item => item.1.name).filter (enqueuer.stale now)) := by
      rw [Pool.saddKnownJobs, Pool.saddKnownJobs, known, names]
    rw [pending]
    exact contents.saddKnownJobs _

/-- A server that has loaded only the script for scheduled jobs. -/
def halfLoaded : RedisServer where
  store := System.emptyState.redis
  loaded script := script = .enqueueUniqueIn
  replicas := []

/-- Two jobs under one key, the first for the work queue and the second for later. -/
def sharedKey : List BulkItem :=
  [({ name := "send", unique := true }, "1"),
    ({ name := "send", unique := true, runAtEpoch := 10 }, "2")]

theorem bulkEnqueue_agrees_scheduled_first :
    ∃ conn after results,
      bulkEnqueue RedisServer.serve { ns := "work" } { server := halfLoaded } 0 0
          sharedKey.reverse = (conn, after, .ok results) ∧
        results.map BulkEnqueueResult.enqueueSkipped = [false, true] := by
  obtain ⟨conn, after, results, returned, agrees⟩ :=
    bulkEnqueue_agrees_iff { ns := "work" } halfLoaded 0 0 sharedKey.reverse (by decide)
      (fun impossible => by cases impossible)
  have aligned : ∀ key, Aligned "work" 0 halfLoaded sharedKey.reverse key := by
    have order : bulkOrder "work" 0 halfLoaded.loaded sharedKey.reverse = sharedKey.reverse := by
      decide +kernel
    intro key
    rw [Aligned, order]
    exact ⟨fun _ => rfl, rfl⟩
  refine ⟨conn, after, results, returned, ?_⟩
  rw [(agrees.mpr ⟨aligned, fun _ _ cached => nomatch cached⟩).1]
  decide +kernel

/-- The job for the work queue is listed first, but its script has to be sent again: the
scheduled job takes the key, and the single calls would have skipped it. -/
theorem bulkEnqueue_disagrees_half_loaded :
    ((bulkEnqueue RedisServer.serve { ns := "work" } { server := halfLoaded } 0 0
        sharedKey).2.2.toOption.map fun results =>
          results.map BulkEnqueueResult.enqueueSkipped) = some [true, false] ∧
      (enqueueEach { ns := "work" } halfLoaded.store 0 0 sharedKey).2.2 = [false, true] ∧
      (bulkEnqueue RedisServer.serve { ns := "work" } { server := halfLoaded } 0 0
        sharedKey).1.server.store.list (.jobs "send") = [] ∧
      ((enqueueEach { ns := "work" } halfLoaded.store 0 0 sharedKey).1.list
        (.jobs "send")).length = 1 := by
  decide +kernel

end Agreement

end Enqueuer
