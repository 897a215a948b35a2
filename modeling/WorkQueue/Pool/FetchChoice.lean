import WorkQueue.Foundation.Selection
import WorkQueue.Pool.Sampler
import WorkQueue.System.Database

/-! # Which queue a fetch takes a job from

A worker samples an order of its queues before each fetch, and the fetch takes a job from the
first queue in that order that has one, is not paused and is below its cap. The queues that are
passed over do not change the odds of the others: a queue from which a job can be taken is
chosen with the probability that its priority has among the priorities of all such queues
(`PrioritySampler.fetch_choice`). Sampling leaves the sampler ready for the next fetch, so this
holds for every fetch of a worker.
-/

/-- Whether a fetch that looks at a queue takes a job from it. -/
def Store.eligible (store : Store) (name : String) : Bool :=
  store.list (.jobs name) ≠ [] ∧ store.paused name = false ∧ store.canRun name

/-- A fetch takes a job from the first eligible queue. -/
theorem Store.redisLuaFetchJob_eq_some_iff (store : Store) (pool : PoolID) (names : List String)
    (name : String) :
    (∃ raw, (store.redisLuaFetchJob pool names).2 =
      some (raw, .jobs name, .inProgress pool name)) ↔ names.find? store.eligible = some name := by
  induction names with
  | nil => simp [redisLuaFetchJob]
  | cons first names ih =>
      rw [redisLuaFetchJob]
      by_cases ready :
          store.list (.jobs first) ≠ [] ∧ store.paused first = false ∧ store.canRun first
      · rw [if_pos ready, List.find?_cons_of_pos (by simpa [eligible] using ready)]
        cases moved : (store.acquireLock first pool).rpoplpush (.jobs first)
            (.inProgress pool first) with
        | none =>
            have empty : (store.acquireLock first pool).list (.jobs first) = [] :=
              rpoplpush_eq_none moved
            exact (ready.1 empty).elim
        | some pair =>
            simp only [Option.some.injEq, Prod.mk.injEq, ListKey.jobs.injEq,
              ListKey.inProgress.injEq, true_and]
            constructor
            · rintro ⟨raw, -, same, -⟩
              exact same
            · rintro rfl
              exact ⟨pair.1, rfl, rfl, rfl⟩
      · rw [if_neg ready, List.find?_cons_of_neg (by simpa [eligible] using ready)]
        exact ih

/-- On a database that represents a store, the script of a fetch takes a job from the first
queue that is eligible in the store. -/
theorem Represents.fetched_iff {ns : String} {database : Database} {redis : Store}
    (represents : Represents ns database redis) {pool : PoolID} (plain : ':' ∉ pool.toList)
    {names : List String} (listed : ∀ name ∈ names, Key.Plain name) (name : String) :
    (∃ raw, (((Request.fetchJob pool names).script (Key.text ns)).run database).2 =
      some (.fetched (some (some raw, (Key.list (.jobs name)).text ns,
        (Key.list (.inProgress pool name)).text ns)))) ↔
      names.find? redis.eligible = some name := by
  rw [(represents.perform fun _ => proper_fetchKeys plain listed).1,
    ← redis.redisLuaFetchJob_eq_some_iff pool names name]
  rcases redis.redisLuaFetchJob_cases pool names with nothing | ⟨other, raw, _, _, _, _, _, taken⟩
  · simp [Request.perform, nothing, Answer.map]
  · simp only [Request.perform, taken, Answer.map, Option.map_some, Option.some.injEq,
      Answer.fetched.injEq, Prod.mk.injEq, ListKey.jobs.injEq, ListKey.inProgress.injEq, true_and]
    constructor
    · rintro ⟨_, _, same, _⟩
      exact ⟨raw, rfl, (queuesApart_text ns).jobs _ _ same, (queuesApart_text ns).jobs _ _ same⟩
    · rintro ⟨_, _, rfl, _⟩
      exact ⟨raw, rfl, rfl, rfl⟩

namespace PrioritySampler

open Shuffle

/-- The item of a job type. -/
def itemOf (jobType : JobType) : SampleItem String := ⟨jobType.priority, jobType.name⟩

/-- The samplers of a worker: the job types are added in any order, and every fetch samples. -/
inductive Sampled (config : PoolConfig) : PrioritySampler String → Prop
  | added {jobTypes : List JobType} : jobTypes.Perm config.jobTypes →
      Sampled config (ofJobTypes jobTypes)
  | resampled {s after : PrioritySampler String} {draws : List UInt64} : Sampled config s →
      sample s draws = some after → Sampled config after

/-- The draws for which a fetch takes a job from a queue. -/
def choosing (ns : String) (database : Database) (poolID : PoolID) (s : PrioritySampler String)
    (name : String) : Set (List UInt64) :=
  {draws | ∃ after, sample s draws = some after ∧ ∃ raw,
    (((Request.fetchJob poolID (after.samples.map SampleItem.payload)).script
        (Key.text ns)).run database).2 =
      some (.fetched (some (some raw, (Key.list (.jobs name)).text ns,
        (Key.list (.inProgress poolID name)).text ns)))}

/-- The probability that a fetch takes a job from a queue, when the draws are uniform. -/
noncomputable def fetchProbability (ns : String) (database : Database) (poolID : PoolID)
    (s : PrioritySampler String) (name : String) : ℚ :=
  ∑ᶠ draws ∈ choosing ns database poolID s name,
    chance (((Loop.start s).arguments draws).map UInt64.toNat)

section Samplers

variable {config : PoolConfig} {s : PrioritySampler String}

/-- A sampler of a worker has the items of its job types and the sum of their priorities. -/
theorem Sampled.exists_items (sampled : Sampled config s)
    (fits : total weight (config.jobTypes.map itemOf) < 2 ^ 64) :
    ∃ items, items.Perm (config.jobTypes.map itemOf) ∧ s = addAll items := by
  induction sampled with
  | @added jobTypes same => exact ⟨jobTypes.map itemOf, same.map itemOf, rfl⟩
  | resampled _ executed ih =>
      obtain ⟨items, same, rfl⟩ := ih
      have small : total weight items < 2 ^ 64 := total_perm same ▸ fits
      rw [sample_eq small] at executed
      obtain ⟨order, outcome, rfl⟩ := Option.map_eq_some_iff.mp executed
      have kept : order.Perm items := (perm_of_shuffle outcome).trans items.reverse_perm
      have sums : (addAll items).sum = (addAll order).sum := by
        rw [← UInt64.toNat_inj, toNat_sum_addAll small, toNat_sum_addAll (total_perm kept ▸ small),
          total_perm kept]
      exact ⟨order, kept.trans same,
        congrArg₂ PrioritySampler.mk sums (samples_addAll order).symm⟩

end Samplers

section Choice

variable {items : List (SampleItem String)} {item : SampleItem String} {redis : Store}
  {ns : String} {database : Database} {poolID : PoolID}

/-- The first eligible name of an order is that of its first eligible item. -/
theorem find?_payload_iff (distinct : (items.map SampleItem.payload).Nodup) (member : item ∈ items)
    {order : List (SampleItem String)} (same : order.Perm items) (eligible : String → Bool) :
    (order.map SampleItem.payload).find? eligible = some item.payload ↔
      order.find? (fun other => eligible other.payload) = some item := by
  rw [List.find?_map, Option.map_eq_some_iff]
  constructor
  · rintro ⟨other, found, named⟩
    have listed := same.mem_iff.mp (List.mem_of_find?_eq_some found)
    rwa [List.inj_on_of_nodup_map distinct listed member named] at found
  · intro found
    exact ⟨item, found, rfl⟩

/-- The draws that choose a queue are those of the shuffles whose first eligible item is the
one of the queue. -/
theorem image_choosing (represents : Represents ns database redis)
    (plain : ':' ∉ poolID.toList) (listed : ∀ item ∈ items, Key.Plain item.payload)
    (fits : total weight items < 2 ^ 64) (distinct : (items.map SampleItem.payload).Nodup)
    (member : item ∈ items) :
    List.map UInt64.toNat '' choosing ns database poolID (addAll items) item.payload =
      leading weight items.reverse fun order =>
        order.find? (fun other => redis.eligible other.payload) = some item := by
  have taken : ∀ order : List (SampleItem String), order.Perm items → ((∃ raw,
      (((Request.fetchJob poolID (order.map SampleItem.payload)).script
        (Key.text ns)).run database).2 =
      some (.fetched (some (some raw, (Key.list (.jobs item.payload)).text ns,
        (Key.list (.inProgress poolID item.payload)).text ns)))) ↔
      order.find? (fun other => redis.eligible other.payload) = some item) := by
    intro order same
    refine (represents.fetched_iff plain ?_ _).trans (find?_payload_iff distinct member same _)
    intro name sampled
    obtain ⟨other, there, rfl⟩ := List.mem_map.mp sampled
    exact listed other (same.mem_iff.mp there)
  ext draws
  constructor
  · rintro ⟨words, ⟨after, executed, chosen⟩, rfl⟩
    rw [sample_eq fits] at executed
    obtain ⟨order, outcome, rfl⟩ := Option.map_eq_some_iff.mp executed
    have same := (perm_of_shuffle outcome).trans items.reverse_perm
    exact ⟨order, outcome, (taken order same).mp chosen⟩
  · rintro ⟨order, outcome, first⟩
    have same := (perm_of_shuffle outcome).trans items.reverse_perm
    have words : (draws.map UInt64.ofNat).map UInt64.toNat = draws := by
      rw [List.map_map]
      refine (List.map_congr_left fun number drawn => ?_).trans (List.map_id draws)
      refine UInt64.toNat_ofNat_of_lt' ((lt_total_of_shuffle outcome number drawn).trans ?_)
      rwa [total_reverse]
    refine ⟨draws.map UInt64.ofNat, ⟨{ addAll items with samples := order }, ?_, ?_⟩, words⟩
    · rw [sample_eq fits, words, outcome, Option.map_some]
    · exact (taken order same).mpr first

theorem fetchProbability_eq (represents : Represents ns database redis)
    (plain : ':' ∉ poolID.toList) (listed : ∀ item ∈ items, Key.Plain item.payload)
    (fits : total weight items < 2 ^ 64) (distinct : (items.map SampleItem.payload).Nodup)
    (member : item ∈ items) :
    fetchProbability ns database poolID (addAll items) item.payload =
      likelihood weight items.reverse fun order =>
        order.find? (fun other => redis.eligible other.payload) = some item := by
  have injective : Function.Injective (List.map UInt64.toNat) :=
    List.map_injective_iff.mpr fun _ _ => UInt64.toNat_inj.mp
  rw [likelihood, ← image_choosing represents plain listed fits distinct member,
    finsum_mem_image injective.injOn, fetchProbability]
  refine finsum_mem_congr rfl ?_
  rintro draws ⟨after, executed, -⟩
  rw [sample_eq fits] at executed
  obtain ⟨order, outcome, -⟩ := Option.map_eq_some_iff.mp executed
  rw [Loop.arguments_eq (Loop.holds_start fits) outcome]

/-- With plain names, a fetch takes a job from a queue with the probability that its priority
has among those of all queues from which a job can be taken: for every database that represents
a store, and for the sampler as it is created or as any earlier fetches have left it. -/
theorem fetch_choice {config : PoolConfig}
    (validated : ∀ jobType ∈ config.jobTypes, ∃ options,
      applyDefaultsAndValidate options = some jobType.toJobOptions)
    (few : config.jobTypes.length ≤ 184467440737095) {s : PrioritySampler String}
    (sampled : Sampled config s) {ns : String} {database : Database} {redis : Store}
    (represents : Represents ns database redis) (listed : ∀ name ∈ config.names, Key.Plain name)
    {poolID : PoolID} (plain : ':' ∉ poolID.toList) {jobType : JobType}
    (registered : jobType ∈ config.jobTypes) (ready : redis.eligible jobType.name) :
    fetchProbability ns database poolID s jobType.name =
      jobType.priority.toNat /
        ((config.jobTypes.filter fun other => redis.eligible other.name).map
          fun other => other.priority.toNat).sum := by
  obtain ⟨least, sum⟩ := fits_ofJobTypes validated few
  rw [ofJobTypes, samples_addAll] at least sum
  obtain ⟨items, same, rfl⟩ := sampled.exists_items sum
  have fits : total weight items < 2 ^ 64 := total_perm same ▸ sum
  have names : (config.jobTypes.map itemOf).map SampleItem.payload = config.names :=
    List.map_map
  have distinct : (items.map SampleItem.payload).Nodup := by
    refine (same.map SampleItem.payload).symm.nodup ?_
    rw [names]
    exact config.distinct
  have member : itemOf jobType ∈ items := same.mem_iff.mpr (List.mem_map_of_mem registered)
  have positive : ∀ item ∈ items.reverse, 0 < weight item := fun item listed =>
    UInt64.le_iff_toNat_le.mp (least item (same.mem_iff.mp (List.mem_reverse.mp listed)))
  have listedItems : ∀ item ∈ items, Key.Plain item.payload := by
    intro item there
    apply listed
    rw [← names]
    exact List.mem_map_of_mem (same.mem_iff.mp there)
  have chosen := fetchProbability_eq represents plain listedItems fits distinct member
  have likely : (likelihood weight items.reverse fun order =>
      order.find? (fun other => redis.eligible other.payload) = some (itemOf jobType)) =
        weight (itemOf jobType) /
          total weight (items.reverse.filter fun other => redis.eligible other.payload) :=
    likelihood_first (List.nodup_reverse.mpr distinct.of_map) positive
      (List.mem_reverse.mpr member) ready
  have among : total weight
      (items.reverse.filter fun other => redis.eligible other.payload) =
        ((config.jobTypes.filter fun other => redis.eligible other.name).map
          fun other => other.priority.toNat).sum := by
    rw [total_perm ((items.reverse_perm.trans same).filter _), List.filter_map, total,
      List.map_map]
    rfl
  exact chosen.trans (likely.trans (by rw [among]; rfl))

/-- A pool with three job types of the priorities 5, 2 and 1. -/
def threeTypes : PoolConfig where
  jobTypes :=
    [{ name := "a", priority := 5, maxFails := 4 }, { name := "b", priority := 2, maxFails := 4 },
      { name := "c", priority := 1, maxFails := 4 }]
  distinct := by decide
  concurrency := 1
  workerIDs := ["w"]
  host := "host"
  pid := 1

/-- A store with a job in every queue, of which the first is paused. -/
def onePaused : Store where
  list := fun key => if key ∈ [.jobs "a", .jobs "b", .jobs "c"] then [.text ""] else []
  zset := fun _ => .empty
  paused := fun name => name = "a"
  lock := fun _ => none
  lockInfo := fun _ => .empty
  maxConcurrency := fun _ => none
  unique := fun _ => none
  knownJobs := ∅
  workerPools := ∅
  heartbeat := fun _ => none

/-- The queue of priority 2 is chosen with probability 2/3 while that of priority 5 is
paused. -/
theorem fetch_choice_paused :
    ∃ database, Represents "work" database onePaused ∧
      Sampled threeTypes (ofJobTypes threeTypes.jobTypes) ∧
      fetchProbability "work" database "A" (ofJobTypes threeTypes.jobTypes) "b" = 2 / 3 := by
  obtain ⟨database, represents⟩ := exists_represents "work" onePaused
  have registered : threeTypes.jobTypes[1] ∈ threeTypes.jobTypes := List.getElem_mem _
  have validated : ∀ jobType ∈ threeTypes.jobTypes, ∃ options,
      applyDefaultsAndValidate options = some jobType.toJobOptions := by
    intro jobType listed
    refine ⟨jobType.toJobOptions, ?_⟩
    revert jobType
    decide
  have plain : ':' ∉ ("A" : PoolID).toList := by decide
  have chosen := fetch_choice validated (by decide) (.added .rfl) represents (by decide) plain
    registered (by decide)
  refine ⟨database, represents, .added .rfl, chosen.trans ?_⟩
  have sum : ((threeTypes.jobTypes.filter fun other => onePaused.eligible other.name).map
      fun other => other.priority.toNat).sum = 3 := by decide
  rw [sum]
  rfl

end Choice

end PrioritySampler
