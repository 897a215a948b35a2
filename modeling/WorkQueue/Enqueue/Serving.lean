import WorkQueue.Enqueue.Bulk
import WorkQueue.Foundation.Registry

/-! # Serving the items of a bulk enqueue

Every item of a bulk enqueue is served by one command in the end (`Enqueuer.enqueueItem`). A
bulk enqueue serves the items whose command is executed at once and then those whose script
the server had to be sent (`Enqueuer.bulkOrder`), and single calls serve them as they
are listed (`Enqueuer.enqueueEach_eq`). Which items are skipped is decided by the registry
of the unique keys.
-/

namespace Enqueuer

section Items

variable (ns : String) (epochSeconds : Int64)

/-- The unique key of an item. -/
def itemKey (item : BulkItem) : Option String :=
  if item.1.unique then some (item.1.buildUniqueKey ns) else none

/-- What the unique key of an item is set to. -/
def itemValue (item : BulkItem) : RawJSON :=
  updatedValue item.1.uniqueKeyMap (itemJob ns epochSeconds item)

/-- The payload of an item. -/
def itemRaw (item : BulkItem) : RawJSON := .json (itemJob ns epochSeconds item).serialize

/-- Put the job of an item on its queue or among the scheduled jobs. -/
def placeItem (item : BulkItem) (store : Store) : Store :=
  if item.1.runAtEpoch ≠ 0 then
    store.zadd .scheduled item.1.runAtEpoch.toInt (itemRaw ns epochSeconds item)
  else store.lpush (.jobs item.1.name) (itemRaw ns epochSeconds item)

/-- Serve an item. The answer tells whether its job is skipped. -/
def enqueueItem (store : Store) (item : BulkItem) : Store × Bool :=
  match itemKey ns item with
  | none => (placeItem ns epochSeconds item store, false)
  | some key =>
      match store.unique key with
      | none =>
          (placeItem ns epochSeconds item
            (store.setUnique key (some (itemValue ns epochSeconds item))), false)
      | some _ => (store.setUnique key (some (itemValue ns epochSeconds item)), true)

/-- Serve items in order. -/
def enqueueItems (store : Store) (items : List BulkItem) : Store :=
  items.foldl (fun store item => (enqueueItem ns epochSeconds store item).1) store

/-- Whether the server executes the first command of an item. -/
def direct (loaded : UniqueScript → Bool) (item : BulkItem) : Bool :=
  !item.1.unique || loaded (itemScript ns epochSeconds item).script

/-- An item is accepted on a store when a list of items is served. -/
abbrev ItemAccepted (store : Store) (items : List BulkItem) (item : BulkItem) : Prop :=
  Registry.Accepted (itemKey ns) store.unique items item

end Items

section Serving

variable {ns : String} {epochSeconds : Int64} {store : Store} {item : BulkItem}

theorem unique_placeItem : (placeItem ns epochSeconds item store).unique = store.unique := by
  unfold placeItem
  split <;> rfl

/-- Serving an item puts its value under its key. -/
theorem unique_enqueueItem :
    (enqueueItem ns epochSeconds store item).1.unique =
      Registry.put (itemKey ns) (itemValue ns epochSeconds) store.unique item := by
  unfold enqueueItem Registry.put
  cases itemKey ns item with
  | none => exact unique_placeItem
  | some key =>
      cases found : store.unique key with
      | none => simp only [found, unique_placeItem]; rfl
      | some value => simp only [found]; rfl

variable (epochSeconds) in
/-- An item is not skipped if its key is free. -/
theorem enqueueItem_skipped :
    (enqueueItem ns epochSeconds store item).2 = false ↔
      ∀ key, itemKey ns item = some key → store.unique key = none := by
  unfold enqueueItem
  cases itemKey ns item with
  | none => simp
  | some key => cases found : store.unique key <;> simp [found]

/-- What serving an item does apart from its key. -/
theorem enqueueItem_fst :
    (enqueueItem ns epochSeconds store item).1 =
      if (enqueueItem ns epochSeconds store item).2 then
        { store with
          unique := Registry.put (itemKey ns) (itemValue ns epochSeconds) store.unique item }
      else
        placeItem ns epochSeconds item { store with
          unique := Registry.put (itemKey ns) (itemValue ns epochSeconds) store.unique item } := by
  unfold enqueueItem Registry.put
  cases itemKey ns item with
  | none => rfl
  | some key => cases found : store.unique key <;> simp [found, Store.setUnique]

/-- The script of an item with its arguments. -/
theorem execute_itemScript_eq :
    (itemScript ns epochSeconds item).execute store =
      if item.1.runAtEpoch ≠ 0 then
        store.redisLuaEnqueueUniqueIn (itemJob ns epochSeconds item).uniqueKey
          (itemRaw ns epochSeconds item) (itemValue ns epochSeconds item) item.1.runAtEpoch
      else
        store.redisLuaEnqueueUnique item.1.name (itemJob ns epochSeconds item).uniqueKey
          (itemRaw ns epochSeconds item) (itemValue ns epochSeconds item) := by
  unfold itemScript BulkEnqueueParam.bulkUniqueHelper
  dsimp only
  split <;> rfl

/-- The script of a unique item serves it. -/
theorem execute_itemScript (unique : item.1.unique = true) :
    (itemScript ns epochSeconds item).execute store =
      ((enqueueItem ns epochSeconds store item).1,
        !(enqueueItem ns epochSeconds store item).2) := by
  have keyed : itemKey ns item = some (itemJob ns epochSeconds item).uniqueKey := by
    rw [itemKey, if_pos unique]
    rfl
  simp only [execute_itemScript_eq, enqueueItem, placeItem, Store.redisLuaEnqueueUniqueIn,
    Store.redisLuaEnqueueUnique, keyed]
  cases store.unique (itemJob ns epochSeconds item).uniqueKey with
  | none | some value => split <;> rfl

variable (ns epochSeconds) in
/-- The first command of an item is executed at once, or refused without effect. -/
theorem serve_itemCommand (redis : RedisServer) (item : BulkItem) :
    if direct ns epochSeconds redis.loaded item then
      (redis.serve (itemCommand ns epochSeconds item)).1 =
          { redis with store := (enqueueItem ns epochSeconds redis.store item).1 } ∧
        itemStatus item.1.unique (redis.serve (itemCommand ns epochSeconds item)).2 =
          .ok (some (enqueueItem ns epochSeconds redis.store item).2)
    else
      redis.serve (itemCommand ns epochSeconds item) = (redis, .noScript) ∧
        item.1.unique = true := by
  unfold direct itemCommand
  cases unique : item.1.unique with
  | true =>
      cases loaded : redis.loaded (itemScript ns epochSeconds item).script with
      | true => simp [RedisServer.serve, loaded, execute_itemScript unique, itemStatus]
      | false => simp [RedisServer.serve, loaded]
  | false =>
      have keyless : itemKey ns item = none := by rw [itemKey, unique]; rfl
      by_cases later : item.1.runAtEpoch ≠ 0
      · simp [later, RedisServer.serve, itemStatus, enqueueItem, keyless, placeItem, itemRaw]
      · simp [later, RedisServer.serve, itemStatus, enqueueItem, keyless, placeItem, itemRaw]

end Serving

section Runs

variable {ns : String} {epochSeconds : Int64} {store : Store} {item other : BulkItem}
  {items others : List BulkItem}

theorem enqueueItems_append :
    enqueueItems ns epochSeconds store (items ++ others) =
      enqueueItems ns epochSeconds (enqueueItems ns epochSeconds store items) others :=
  List.foldl_append ..

/-- The unique keys after serving items. -/
theorem unique_enqueueItems :
    (enqueueItems ns epochSeconds store items).unique =
      Registry.settle (itemKey ns) (itemValue ns epochSeconds) store.unique items := by
  induction items generalizing store with
  | nil => rfl
  | cons item items ih => rw [Registry.settle_cons, ← unique_enqueueItem, ← ih]; rfl

/-- The first item is skipped unless it is accepted. -/
theorem skipped_iff :
    (enqueueItem ns epochSeconds store item).2 = true ↔
      ¬ ItemAccepted ns store (item :: items) item := by
  rw [ItemAccepted, Registry.accepted_head, ← enqueueItem_skipped epochSeconds]
  simp

/-- The other items are served on the store the first one leaves. -/
theorem accepted_later (distinct : other ≠ item) :
    ItemAccepted ns store (item :: items) other ↔
      ItemAccepted ns (enqueueItem ns epochSeconds store item).1 items other := by
  rw [ItemAccepted, ItemAccepted, unique_enqueueItem]
  exact Registry.accepted_tail distinct

/-- Known jobs do not matter for an item. -/
theorem enqueueItem_saddKnownJobs (names : List String) :
    enqueueItem ns epochSeconds (Pool.saddKnownJobs store names) item =
      (Pool.saddKnownJobs (enqueueItem ns epochSeconds store item).1 names,
        (enqueueItem ns epochSeconds store item).2) := by
  have placed : ∀ store, placeItem ns epochSeconds item (Pool.saddKnownJobs store names) =
      Pool.saddKnownJobs (placeItem ns epochSeconds item store) names := by
    intro store
    unfold placeItem
    split <;> rfl
  unfold enqueueItem
  cases itemKey ns item with
  | none => simp only [placed]
  | some key =>
      have same : (Pool.saddKnownJobs store names).unique key = store.unique key := rfl
      simp only [same]
      cases store.unique key with
      | none => simp only [← placed]; rfl
      | some value => rfl

theorem enqueueItems_saddKnownJobs (names : List String) :
    enqueueItems ns epochSeconds (Pool.saddKnownJobs store names) items =
      Pool.saddKnownJobs (enqueueItems ns epochSeconds store items) names := by
  induction items generalizing store with
  | nil => rfl
  | cons item items ih =>
      change enqueueItems ns epochSeconds (enqueueItem ns epochSeconds _ item).1 items = _
      rw [enqueueItem_saddKnownJobs, ih]
      rfl

end Runs

section Pipeline

/-- Whether an item is skipped when a list of items is served. -/
def skips (ns : String) (store : Store) (items : List BulkItem) (item : BulkItem) :
    Bool :=
  decide (¬ ItemAccepted ns store items item)

variable (ns : String) (epochSeconds : Int64) {items : List BulkItem}

theorem skips_head (store : Store) (item : BulkItem) (items : List BulkItem) :
    skips ns store (item :: items) item = (enqueueItem ns epochSeconds store item).2 := by
  rw [skips, Bool.eq_iff_iff, decide_eq_true_eq, ← skipped_iff]

theorem skips_tail {store : Store} {item other : BulkItem} (distinct : other ≠ item)
    (items : List BulkItem) :
    skips ns store (item :: items) other =
      skips ns (enqueueItem ns epochSeconds store item).1 items other := by
  rw [skips, skips, Bool.eq_iff_iff, decide_eq_true_eq, decide_eq_true_eq, accepted_later distinct]

/-- The first commands serve the direct items. -/
theorem server_itemCommands (redis : RedisServer) (items : List BulkItem) :
    (Connection.serveAll RedisServer.serve redis (items.map (itemCommand ns epochSeconds))).1 =
      { redis with
        store := enqueueItems ns epochSeconds redis.store
          (items.filter (direct ns epochSeconds redis.loaded)) } := by
  induction items generalizing redis with
  | nil => rfl
  | cons item items ih =>
      have served := serve_itemCommand ns epochSeconds redis item
      rw [List.map_cons, Connection.serveAll, ih]
      split at served
      · next now => rw [served.1, List.filter_cons_of_pos now]; rfl
      · next later => rw [served.1, List.filter_cons_of_neg later]

/-- The scripts that are sent again serve their items. -/
theorem server_replayed (unique : ∀ item ∈ items, item.1.unique = true) (redis : RedisServer) :
    (Connection.serveAll RedisServer.serve redis
        (items.map fun item => .eval (itemScript ns epochSeconds item))).1.store =
        enqueueItems ns epochSeconds redis.store items ∧
      (Connection.serveAll RedisServer.serve redis
        (items.map fun item => .eval (itemScript ns epochSeconds item))).1.replicas =
        redis.replicas := by
  induction items generalizing redis with
  | nil => exact ⟨rfl, rfl⟩
  | cons item items ih =>
      obtain ⟨own, unique⟩ := List.forall_mem_cons.mp unique
      have served : (itemScript ns epochSeconds item).execute redis.store = _ :=
        execute_itemScript own
      have later := ih unique (redis.serve (.eval (itemScript ns epochSeconds item))).1
      rw [List.map_cons, Connection.serveAll]
      simp only [RedisServer.serve, served] at later ⊢
      exact later

/-- The command for the names that are not known, if there are any. -/
def knownCommands (pending : List String) : List EnqueueCommand :=
  if pending = [] then [] else [.sadd pending]

/-- The command that waits for replicas, if they are asked for. -/
def waitCommands (enqueuer : Enqueuer) : List EnqueueCommand :=
  if 0 < enqueuer.minWaitReplicas then [.wait] else []

theorem sendWait_eq {Server : Type} (enqueuer : Enqueuer) (conn : Conn Server) :
    enqueuer.sendWait conn = { conn with sent := conn.sent ++ enqueuer.waitCommands } := by
  unfold sendWait waitCommands
  split
  · rfl
  · rw [List.append_nil]

theorem sendBulkKnownJobs_eq {Server : Type} (conn : Conn Server) (pending : List String) :
    sendBulkKnownJobs conn pending =
      { conn with sent := conn.sent ++ knownCommands pending } := by
  unfold sendBulkKnownJobs knownCommands
  split
  · rw [List.append_nil]
  · rfl

theorem server_knownCommands (redis : RedisServer) (pending : List String) :
    (Connection.serveAll RedisServer.serve redis (knownCommands pending)).1 =
      { redis with store := Pool.saddKnownJobs redis.store pending } := by
  unfold knownCommands
  split
  · next nothing => simp [nothing, Pool.saddKnownJobs, Connection.serveAll]
  · rfl

theorem server_waitCommands (enqueuer : Enqueuer) (redis : RedisServer) :
    (Connection.serveAll RedisServer.serve redis enqueuer.waitCommands).1 =
      { redis with
        replicas := if 0 < enqueuer.minWaitReplicas then redis.replicas.tail
          else redis.replicas } := by
  unfold waitCommands
  split <;> rfl

/-- The order in which a bulk enqueue serves its items. -/
def bulkOrder (loaded : UniqueScript → Bool) (items : List BulkItem) : List BulkItem :=
  items.filter (direct ns epochSeconds loaded) ++
    items.filter fun item => !direct ns epochSeconds loaded item

/-- Only scripts are sent again. -/
theorem unique_of_deferred {loaded : UniqueScript → Bool} {item : BulkItem}
    (member : item ∈ items.filter fun item => !direct ns epochSeconds loaded item) :
    item.1.unique = true := by
  have later := (List.mem_filter.mp member).2
  unfold direct at later
  cases unique : item.1.unique with
  | true => rfl
  | false => simp [unique] at later

theorem bulkOrder_perm (loaded : UniqueScript → Bool) (items : List BulkItem) :
    (bulkOrder ns epochSeconds loaded items).Perm items :=
  List.filter_append_perm _ items

/-- The items without a status are those of the second pass. -/
theorem failedItems_map (now : BulkItem → Bool) (status : BulkItem → Bool)
    (items : List BulkItem) :
    failedItems items (items.map fun item => if now item then some (status item) else none) =
      items.filter fun item => !now item := by
  unfold failedItems
  induction items with
  | nil => rfl
  | cons item items ih =>
      cases executed : now item with
      | true | false => simpa [List.zip_cons_cons, executed] using ih

/-- Every status is filled in from the pass that served its item. -/
theorem fillStatuses_map (now : BulkItem → Bool) (first second : BulkItem → Bool)
    (items : List BulkItem) :
    fillStatuses (items.map fun item => if now item then some (first item) else none)
        ((items.filter fun item => !now item).map second) =
      items.map fun item => if now item then first item else second item := by
  induction items with
  | nil => rfl
  | cons item items ih =>
      cases executed : now item with
      | true | false => simpa [executed, fillStatuses] using ih

/-- An item is skipped in the pass that serves it if it is skipped in the order of both. -/
theorem skips_bulkOrder (loaded : UniqueScript → Bool) (store : Store) (names : List String)
    {item : BulkItem} (member : item ∈ items) :
    (if direct ns epochSeconds loaded item then
        skips ns store (items.filter (direct ns epochSeconds loaded)) item
      else
        skips ns (Pool.saddKnownJobs (enqueueItems ns epochSeconds store
            (items.filter (direct ns epochSeconds loaded))) names)
          (items.filter fun item => !direct ns epochSeconds loaded item) item) =
      skips ns store (bulkOrder ns epochSeconds loaded items) item := by
  unfold skips bulkOrder
  cases executed : direct ns epochSeconds loaded item with
  | true =>
      have inside := List.mem_filter.mpr ⟨member, executed⟩
      rw [if_pos rfl, Bool.eq_iff_iff, decide_eq_true_eq, decide_eq_true_eq, ItemAccepted,
        ItemAccepted, Registry.accepted_append_left inside]
  | false =>
      have outside : item ∉ items.filter (direct ns epochSeconds loaded) := by
        intro inside
        exact Bool.false_ne_true (executed.symm.trans (List.mem_filter.mp inside).2)
      have unique : (Pool.saddKnownJobs (enqueueItems ns epochSeconds store
          (items.filter (direct ns epochSeconds loaded))) names).unique = _ :=
        unique_enqueueItems
      rw [if_neg Bool.false_ne_true, Bool.eq_iff_iff, decide_eq_true_eq, decide_eq_true_eq,
        ItemAccepted, ItemAccepted, Registry.accepted_append_right outside, unique]

/-- The statuses of both passes are those of the items in the order of both. -/
theorem fillStatuses_bulkOrder (loaded : UniqueScript → Bool) (store : Store)
    (names : List String) :
    fillStatuses
        (items.map fun item =>
          if direct ns epochSeconds loaded item then
            some (skips ns store (items.filter (direct ns epochSeconds loaded)) item)
          else none)
        ((items.filter fun item => !direct ns epochSeconds loaded item).map
          (skips ns (Pool.saddKnownJobs (enqueueItems ns epochSeconds store
              (items.filter (direct ns epochSeconds loaded))) names)
            (items.filter fun item => !direct ns epochSeconds loaded item))) =
      items.map (skips ns store (bulkOrder ns epochSeconds loaded items)) := by
  rw [fillStatuses_map]
  exact List.map_congr_left fun item member =>
    skips_bulkOrder ns epochSeconds loaded store names member

end Pipeline

section SingleCalls

variable {enqueuer : Enqueuer} {epochSeconds now : Int64} {redis : Store}

/-- Whether a single call adds a name to the known jobs, as it has not been added a short while
ago. -/
def stale (enqueuer : Enqueuer) (now : Int64) (name : String) : Bool :=
  match enqueuer.knownJobs name with
  | none => true
  | some time => !(now < time)

/-- What an enqueuer remembers of the known jobs after a call. -/
def remember (enqueuer : Enqueuer) (now : Int64) (name : String) : Enqueuer :=
  if enqueuer.stale now name then
    { enqueuer with knownJobs := Function.update enqueuer.knownJobs name (some (now + 300)) }
  else enqueuer

@[simp] theorem ns_remember (name : String) : (enqueuer.remember now name).ns = enqueuer.ns := by
  unfold remember
  split <;> rfl

theorem stale_remember {name other : String} (different : other ≠ name) :
    (enqueuer.remember now name).stale now other = enqueuer.stale now other := by
  unfold remember
  split
  · simp only [stale, Function.update_of_ne different]
  · rfl

theorem saddKnownJobs_of_subset {names : List String}
    (known : ∀ name ∈ names, name ∈ redis.knownJobs) : Pool.saddKnownJobs redis names = redis := by
  have same : redis.knownJobs ∪ names.toFinset = redis.knownJobs :=
    Finset.union_eq_left.mpr fun name member => known name (List.mem_toFinset.mp member)
  rw [Pool.saddKnownJobs, same]

theorem addToKnownJobs_eq (redis : Store) (name : String) :
    enqueuer.addToKnownJobs redis now name =
      (Pool.saddKnownJobs redis ([name].filter (enqueuer.stale now)),
        enqueuer.remember now name) := by
  unfold addToKnownJobs remember
  change (if enqueuer.stale now name then _ else _) = _
  cases stale : enqueuer.stale now name with
  | true => simp [stale]
  | false =>
      simp only [Bool.false_eq_true, ↓reduceIte, List.filter_cons, stale, List.filter_nil]
      rw [saddKnownJobs_of_subset fun _ => (absurd · List.not_mem_nil)]

variable (epochSeconds now) in
/-- A single call serves its item and adds its name to the known jobs if it is stale. -/
theorem enqueueOne_eq (item : BulkItem) :
    enqueuer.enqueueOne redis epochSeconds now item =
      (Pool.saddKnownJobs (enqueueItem enqueuer.ns epochSeconds redis item).1
          ([item.1.name].filter (enqueuer.stale now)),
        enqueuer.remember now item.1.name,
        (enqueueItem enqueuer.ns epochSeconds redis item).2) := by
  cases unique : item.1.unique with
  | true =>
      have job : uniqueJob enqueuer.ns item.1.name item.2 epochSeconds item.1.args
          item.1.uniqueKeyMap = itemJob enqueuer.ns epochSeconds item := by
        simp only [itemJob, BulkEnqueueParam.buildJob, BulkEnqueueParam.buildUniqueKey, unique,
          ↓reduceIte]
        rfl
      have served : (itemScript enqueuer.ns epochSeconds item).execute
          (Pool.saddKnownJobs redis ([item.1.name].filter (enqueuer.stale now))) = _ :=
        execute_itemScript_eq
      rw [execute_itemScript unique, enqueueItem_saddKnownJobs] at served
      unfold enqueueOne
      simp only [unique, ↓reduceIte, addToKnownJobs_eq, ns_remember, job]
      rw [← itemRaw, ← itemValue, ← served]
      simp
  | false =>
      have job : plainJob item.1.name item.2 epochSeconds item.1.args =
          itemJob enqueuer.ns epochSeconds item := by
        simp only [itemJob, BulkEnqueueParam.buildJob, BulkEnqueueParam.buildUniqueKey, unique,
          Bool.false_eq_true, ↓reduceIte]
        rfl
      have served : enqueueItem enqueuer.ns epochSeconds redis item =
          (placeItem enqueuer.ns epochSeconds item redis, false) := by
        simp only [enqueueItem, itemKey, unique, Bool.false_eq_true, ↓reduceIte]
      unfold enqueueOne
      simp only [unique, Bool.false_eq_true, ↓reduceIte, job, addToKnownJobs_eq]
      rw [← itemRaw, ← placeItem, served]

/-- What is stale for the calls after the first is stale before it, or has been added by it. -/
theorem saddKnownJobs_stale (name : String) (names : List String) :
    Pool.saddKnownJobs (Pool.saddKnownJobs redis ([name].filter (enqueuer.stale now)))
        (names.filter ((enqueuer.remember now name).stale now)) =
      Pool.saddKnownJobs redis ((name :: names).filter (enqueuer.stale now)) := by
  have same : redis.knownJobs ∪ ([name].filter (enqueuer.stale now)).toFinset ∪
      (names.filter ((enqueuer.remember now name).stale now)).toFinset =
        redis.knownJobs ∪ ((name :: names).filter (enqueuer.stale now)).toFinset := by
    ext other
    simp only [Finset.mem_union, List.mem_toFinset, List.mem_filter, List.mem_cons,
      List.not_mem_nil, or_false]
    by_cases first : other = name
    · subst first
      cases stale : enqueuer.stale now other with
      | true => simp
      | false => simp [remember, stale]
    · rw [stale_remember first]
      simp [first]
  simp only [Pool.saddKnownJobs, same]

variable (epochSeconds now) in
/-- The single calls serve the items as they are listed and add their stale names to the known
jobs. -/
theorem enqueueEach_eq {items : List BulkItem} (nodup : items.Nodup) :
    (enqueuer.enqueueEach redis epochSeconds now items).1 =
        Pool.saddKnownJobs (enqueueItems enqueuer.ns epochSeconds redis items)
          ((items.map fun item => item.1.name).filter (enqueuer.stale now)) ∧
      (enqueuer.enqueueEach redis epochSeconds now items).2.2 =
        items.map (skips enqueuer.ns redis items) := by
  induction items generalizing enqueuer redis with
  | nil =>
      refine ⟨(saddKnownJobs_of_subset fun name member => ?_).symm, rfl⟩
      exact (List.not_mem_nil member).elim
  | cons item items ih =>
      obtain ⟨absent, nodup⟩ := List.nodup_cons.mp nodup
      simp only [enqueueEach, enqueueOne_eq]
      generalize later : enqueuer.remember now item.1.name = after
      have same : after.ns = enqueuer.ns := by rw [← later, ns_remember]
      obtain ⟨store, skipped⟩ := @ih after _ nodup
      constructor
      · rw [store, same, enqueueItems_saddKnownJobs, ← later, saddKnownJobs_stale]
        rfl
      · rw [skipped, same, List.map_cons, skips_head enqueuer.ns epochSeconds]
        congr 1
        refine List.map_congr_left fun other member => ?_
        have distinct : other ≠ item := fun same => absent (same ▸ member)
        rw [skips_tail enqueuer.ns epochSeconds distinct]
        rfl

end SingleCalls

end Enqueuer
