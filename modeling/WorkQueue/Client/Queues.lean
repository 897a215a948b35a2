import WorkQueue.Client.Heartbeats
import WorkQueue.Foundation.Pipeline
import WorkQueue.System.Database

/-! # The queues as clients read them

A client lists the known jobs, reads the length, the cap and the lock of every queue through
one pipeline, and then the oldest payload of every queue that was not empty through another.
Other clients may write between any two of these commands, so every answer is that of the
database at its own moment. The replies stay aligned with the commands although empty queues are
left out of the second pipeline (`Client.receiveLatencies_eq_ok_iff`). A payload that is not a
job makes the client use a job that does not exist: the queues are read if and only if each
number is legible and each oldest payload is a job, or gone, when its own command is executed
(`Client.queues_read_iff`).
-/

open Redis

/-- The commands with which a client reads the queues. -/
inductive QueryCommand where
  | knownJobs
  | llen (name : String)
  | getConcurrency (name : String)
  | getLock (name : String)
  | lindexLast (name : String)
  deriving DecidableEq

/-- The replies to them. -/
inductive QueryAnswer where
  | members (names : Finset String)
  | integer (value : ℕ)
  | bulk (text : String)
  | payload (raw : RawJSON)
  | nil
  | error
  deriving DecidableEq

/-- The reply to a command for a string. -/
def Redis.Slot.answer : Slot → QueryAnswer
  | none => .nil
  | some (.number value) => .bulk (String.ofList (intDigits value))
  | some (.bytes raw) => .bulk (String.ofList raw.chars)
  | some _ => .error

namespace Database

/-- The names of the known jobs, unless the key holds something else. -/
def known (ns : String) (database : Database) : Option (Finset String) :=
  (database (Key.knownJobs.text ns)).asSet

/-- The payloads on the queue of a job name, unless the key holds something else. -/
def payloads (ns : String) (database : Database) (name : String) : Option (List RawJSON) :=
  (database ((Key.list (.jobs name)).text ns)).asList

/-- Answer a command. -/
def answer (ns : String) (database : Database) : QueryCommand → QueryAnswer
  | .knownJobs => (database.known ns).elim .error .members
  | .llen name => (database.payloads ns name).elim .error fun payloads => .integer payloads.length
  | .getConcurrency name => (database ((Key.concurrency name).text ns)).answer
  | .getLock name => (database ((Key.lock name).text ns)).answer
  | .lindexLast name => (database.payloads ns name).elim .error fun payloads =>
      payloads.getLast?.elim .nil .payload

end Database

/-- A database that may change between any two commands: what it holds at the moments at which
it answers. -/
abbrev Feed := ℕ → Database

/-- Answer a command at a moment. -/
def Feed.serve (ns : String) (feed : Feed) (moment : ℕ) (command : QueryCommand) :
    ℕ × QueryAnswer := (moment + 1, (feed moment).answer ns command)

/-- Decode the bytes of a job. -/
def RawJSON.unmarshal : RawJSON → Option Job
  | .json document => Job.decode document
  | .text _ => none

/-- Why a reply is not an integer: it is nil, or something else. -/
inductive IntError where
  | nil
  | other
  deriving DecidableEq

/-- Read a reply as an integer. -/
def QueryAnswer.int64 : QueryAnswer → Except IntError Int64
  | .integer value => if value < 2 ^ 63 then .ok (Int64.ofNat value) else .error .other
  | .bulk text =>
      match parseInt text with
      | some value => .ok value
      | none => .error .other
  | .nil => .error .nil
  | .members _ | .payload _ | .error => .error .other

/-- What is shown of a queue. -/
structure Queue where
  jobName : String
  count : Int64
  latency : Int64 := 0
  maxConcurrency : Int64
  lockCount : Int64
  deriving DecidableEq

/-- Why the queues are not returned: an error reply, or a payload that is not a job. -/
inductive QueuesError where
  | redis
  | nilDereference
  deriving DecidableEq

namespace Client

section Pipeline

variable {Server : Type} (serve : Server → QueryCommand → Server × QueryAnswer)

/-- A connection of a client that reads the queues. -/
abbrev QueryConn (Server : Type) := Connection Server QueryCommand QueryAnswer

/-- Receive the names of the known jobs in order. -/
def receiveNames (conn : QueryConn Server) : Except QueuesError (List String × QueryConn Server) :=
  match conn.receive with
  | some (.members names, next) => .ok (inOrder names, next)
  | _ => .error .redis

/-- Receive the length of a queue. -/
def receiveCount (conn : QueryConn Server) : Except QueuesError (Int64 × QueryConn Server) :=
  match conn.receive with
  | some (answer, next) =>
      match answer.int64 with
      | .ok value => .ok (value, next)
      | .error _ => .error .redis
  | none => .error .redis

/-- Receive a number that may be missing. -/
def receiveNumber (conn : QueryConn Server) : Except QueuesError (Int64 × QueryConn Server) :=
  match conn.receive with
  | some (answer, next) =>
      match answer.int64 with
      | .ok value => .ok (value, next)
      | .error .nil => .ok (0, next)
      | .error .other => .error .redis
  | none => .error .redis

/-- Receive the numbers of a queue. -/
def receiveQueue (conn : QueryConn Server) (jobName : String) :
    Except QueuesError (Queue × QueryConn Server) := do
  let (count, conn) ← receiveCount conn
  let (maxConcurrency, conn) ← receiveNumber conn
  let (lockCount, conn) ← receiveNumber conn
  return ({ jobName, count, maxConcurrency, lockCount }, conn)

/-- Receive the numbers of all queues. -/
def receiveQueues (conn : QueryConn Server) :
    List String → Except QueuesError (List Queue × QueryConn Server)
  | [] => .ok ([], conn)
  | jobName :: jobNames => do
      let (queue, conn) ← receiveQueue conn jobName
      let (queues, conn) ← receiveQueues conn jobNames
      return (queue :: queues, conn)

/-- Receive the oldest payload of a queue that was not empty. Bytes that are not a job are
logged, and the missing job is used all the same. -/
def receiveLatency (now : Int64) (conn : QueryConn Server) (queue : Queue) :
    Except QueuesError (Queue × QueryConn Server) :=
  if 0 < queue.count then
    match conn.receive with
    | some (.nil, next) => .ok (queue, next)
    | some (.payload raw, next) =>
        match raw.unmarshal with
        | some job => .ok ({ queue with latency := now - job.enqueuedAt }, next)
        | none => .error .nilDereference
    | _ => .error .redis
  else .ok (queue, conn)

/-- Receive the oldest payloads. -/
def receiveLatencies (now : Int64) (conn : QueryConn Server) :
    List Queue → Except QueuesError (List Queue × QueryConn Server)
  | [] => .ok ([], conn)
  | queue :: queues => do
      let (first, conn) ← receiveLatency now conn queue
      let (rest, conn) ← receiveLatencies now conn queues
      return (first :: rest, conn)

/-- The commands for the numbers of a queue. -/
def queueCommands (jobName : String) : List QueryCommand :=
  [.llen jobName, .getConcurrency jobName, .getLock jobName]

/-- The commands for the oldest payloads. -/
def latencyCommands (queues : List Queue) : List QueryCommand :=
  (queues.filter fun queue => 0 < queue.count).map fun queue => .lindexLast queue.jobName

/-- Read all queues. -/
def queues (conn : QueryConn Server) (now : Int64) :
    Except QueuesError (List Queue × QueryConn Server) := do
  let (jobNames, conn) ← receiveNames ((conn.send .knownJobs).flush serve)
  let (queues, conn) ←
    receiveQueues ((conn.sendAll (jobNames.flatMap queueCommands)).flush serve) jobNames
  receiveLatencies now ((conn.sendAll (latencyCommands queues)).flush serve) queues

end Pipeline

end Client

/-- What a key holds as a number, which is zero if it is missing. -/
def Redis.Slot.int64 : Slot → Option Int64
  | none => some 0
  | some (.number value) =>
      if -2 ^ 63 ≤ value ∧ value < 2 ^ 63 then some (Int64.ofInt value) else none
  | some (.bytes raw) => parseInt (String.ofList raw.chars)
  | some _ => none

namespace Database

variable (ns : String) (database : Database) (name : String)

/-- The length of a queue. -/
def length : Option Int64 :=
  (database.payloads ns name).bind fun payloads =>
    if payloads.length < 2 ^ 63 then some (Int64.ofNat payloads.length) else none

/-- The cap of a queue. -/
def cap : Option Int64 := (database ((Key.concurrency name).text ns)).int64

/-- The lock of a queue. -/
def lock : Option Int64 := (database ((Key.lock name).text ns)).int64

/-- The oldest payload of a queue is a job, if there is one. -/
def Decodes : Prop :=
  ∃ payloads, database.payloads ns name = some payloads ∧
    ∀ raw ∈ payloads.getLast?, raw.unmarshal.isSome

/-- The latency of a queue: the age of its oldest payload, and nothing if there is none. -/
def latency (now : Int64) : Option Int64 :=
  (database.payloads ns name).bind fun payloads =>
    match payloads.getLast? with
    | none => some 0
    | some raw => raw.unmarshal.map fun job => now - job.enqueuedAt

theorem isSome_latency_iff (now : Int64) :
    (database.latency ns name now).isSome ↔ database.Decodes ns name := by
  unfold latency Decodes
  cases database.payloads ns name with
  | none => simp
  | some payloads =>
      cases oldest : payloads.getLast? with
      | none | some raw => simp [oldest]

end Database

namespace Client

/-- Queues whose numbers are those of their own keys: three moments for each name. -/
inductive Counted (ns : String) (feed : Feed) : ℕ → List String → List Queue → Prop
  | none {moment : ℕ} : Counted ns feed moment [] []
  | more {moment : ℕ} {name : String} {names : List String} {count cap lock : Int64}
      {queues : List Queue} :
      (feed moment).length ns name = some count →
      (feed (moment + 1)).cap ns name = some cap →
      (feed (moment + 2)).lock ns name = some lock →
      Counted ns feed (moment + 3) names queues →
      Counted ns feed moment (name :: names)
        ({ jobName := name, count := count, maxConcurrency := cap, lockCount := lock } :: queues)

/-- Queues with the latencies of their own oldest payloads: one moment for each that was not
empty. -/
inductive Aged (ns : String) (feed : Feed) (now : Int64) : ℕ → List Queue → List Queue → Prop
  | none {moment : ℕ} : Aged ns feed now moment [] []
  | empty {moment : ℕ} {queue : Queue} {queues aged : List Queue} : ¬ 0 < queue.count →
      Aged ns feed now moment queues aged →
      Aged ns feed now moment (queue :: queues) (queue :: aged)
  | waiting {moment : ℕ} {queue : Queue} {queues aged : List Queue} {latency : Int64} :
      0 < queue.count → (feed moment).latency ns queue.jobName now = some latency →
      Aged ns feed now (moment + 1) queues aged →
      Aged ns feed now moment (queue :: queues) ({ queue with latency := latency } :: aged)

/-- What a sequence of receiving steps returns. -/
theorem bind_eq_ok_iff {Error First Second : Type} {first : Except Error First}
    {rest : First → Except Error Second} {value : Second} :
    (first >>= rest) = .ok value ↔
      ∃ received, first = .ok received ∧ rest received = .ok value := by
  cases first with
  | error error => exact ⟨nofun, fun ⟨_, impossible, _⟩ => nomatch impossible⟩
  | ok received => exact ⟨fun same => ⟨received, rfl, same⟩, fun ⟨_, same, last⟩ => by
      cases same
      exact last⟩

section Replies

variable {ns : String} {feed : Feed} {moment : ℕ} {name : String} {now : Int64}
  {server : ℕ} {next : QueryConn ℕ} {rest : List QueryAnswer}

theorem receiveCount_eq_ok_iff {count : Int64} {database : Database} :
    receiveCount { server := server, replies := database.answer ns (.llen name) :: rest } =
        .ok (count, next) ↔
      database.length ns name = some count ∧ next = { server := server, replies := rest } := by
  simp only [receiveCount, Connection.receive, Database.answer, Database.length]
  cases database.payloads ns name with
  | none => simp [QueryAnswer.int64]
  | some payloads =>
      by_cases small : payloads.length < 2 ^ 63
      · simp only [Option.elim_some, QueryAnswer.int64, Option.bind_some, if_pos small]
        simp [eq_comm]
      · simp only [Option.elim_some, QueryAnswer.int64, Option.bind_some, if_neg small]
        simp

theorem receiveNumber_eq_ok_iff {value : Int64} {slot : Slot} :
    receiveNumber { server := server, replies := slot.answer :: rest } = .ok (value, next) ↔
      slot.int64 = some value ∧ next = { server := server, replies := rest } := by
  have parsed : ∀ text,
      receiveNumber { server := server, replies := .bulk text :: rest } = .ok (value, next) ↔
        parseInt text = some value ∧ next = { server := server, replies := rest } := by
    intro text
    simp only [receiveNumber, Connection.receive, QueryAnswer.int64]
    cases parseInt text with
    | none => simp
    | some read => simp [eq_comm]
  cases slot with
  | none => simp [receiveNumber, Connection.receive, Slot.answer, QueryAnswer.int64, Slot.int64,
      eq_comm]
  | some held =>
      cases held with
      | number value => rw [Slot.answer, parsed, parseInt_intDigits, Slot.int64]
      | bytes raw => rw [Slot.answer, parsed, Slot.int64]
      | _ => simp [receiveNumber, Connection.receive, Slot.answer, QueryAnswer.int64, Slot.int64]

/-- Moments pass as commands are executed. -/
theorem serveAll_serve (commands : List QueryCommand) :
    (Connection.serveAll (Feed.serve ns feed) moment commands).1 = moment + commands.length := by
  induction commands generalizing moment with
  | nil => rfl
  | cons command commands ih =>
      rw [Connection.serveAll, ih, List.length_cons]
      simp only [Feed.serve]
      omega

theorem length_queueCommands (names : List String) :
    (names.flatMap queueCommands).length = 3 * names.length := by
  rw [List.length_flatMap]
  simp [queueCommands, Nat.mul_comm]

/-- The replies for all queues are those to their own commands. -/
theorem receiveQueues_eq_ok_iff {names : List String} {queues : List Queue} :
    receiveQueues { server := server, replies :=
        (Connection.serveAll (Feed.serve ns feed) moment (names.flatMap queueCommands)).2 ++
          rest } names = .ok (queues, next) ↔
      Counted ns feed moment names queues ∧ next = { server := server, replies := rest } := by
  induction names generalizing moment queues next with
  | nil =>
      constructor
      · intro received
        cases received
        exact ⟨.none, rfl⟩
      · rintro ⟨⟨⟩, rfl⟩
        rfl
  | cons name names ih =>
      have replies : (Connection.serveAll (Feed.serve ns feed) moment
          ((name :: names).flatMap queueCommands)).2 ++ rest =
        (feed moment).answer ns (.llen name) ::
          ((feed (moment + 1)) ((Key.concurrency name).text ns)).answer ::
            ((feed (moment + 2)) ((Key.lock name).text ns)).answer ::
              ((Connection.serveAll (Feed.serve ns feed) (moment + 3)
                (names.flatMap queueCommands)).2 ++ rest) := rfl
      rw [replies]
      simp only [receiveQueues, receiveQueue, bind_eq_ok_iff, Prod.exists, receiveCount_eq_ok_iff,
        and_assoc]
      constructor
      · rintro ⟨queue, _, ⟨count, _, counted, rfl, cap, _, capped, lock, _, locked, made⟩,
          others, _, later, whole⟩
        obtain ⟨hasCap, rfl⟩ := receiveNumber_eq_ok_iff.mp capped
        obtain ⟨hasLock, rfl⟩ := receiveNumber_eq_ok_iff.mp locked
        cases made
        obtain ⟨rest, rfl⟩ := ih.mp later
        cases whole
        exact ⟨.more counted hasCap hasLock rest, rfl⟩
      · rintro ⟨counted, rfl⟩
        cases counted with
        | more counted capped locked later =>
            exact ⟨_, _, ⟨_, _, counted, rfl, _, _, receiveNumber_eq_ok_iff.mpr ⟨capped, rfl⟩, _, _,
              receiveNumber_eq_ok_iff.mpr ⟨locked, rfl⟩, rfl⟩, _, _, ih.mpr ⟨later, rfl⟩, rfl⟩

/-- The reply for a queue that was not empty is that to its own command. -/
theorem receiveLatency_eq_ok_iff {queue read : Queue} (waiting : 0 < queue.count)
    (empty : queue.latency = 0) {database : Database} :
    receiveLatency now
        { server := server,
          replies := database.answer ns (.lindexLast queue.jobName) :: rest } queue =
        .ok (read, next) ↔
      (∃ latency, database.latency ns queue.jobName now = some latency ∧
          read = { queue with latency := latency }) ∧
        next = { server := server, replies := rest } := by
  have same : queue = { queue with latency := 0 } := by rw [← empty]
  simp only [receiveLatency, if_pos waiting, Connection.receive, Database.answer, Database.latency]
  cases database.payloads ns queue.jobName with
  | none => simp
  | some payloads =>
      cases oldest : payloads.getLast? with
      | none => simp [oldest, ← same, eq_comm]
      | some raw =>
          cases decoded : raw.unmarshal with
          | none => simp [oldest, decoded]
          | some job => simp [oldest, decoded, eq_comm]

/-- The replies for the oldest payloads are those to the commands of their own queues,
although empty queues are left out. -/
theorem receiveLatencies_eq_ok_iff {queues read : List Queue}
    (empty : ∀ queue ∈ queues, queue.latency = 0) :
    receiveLatencies now { server := server, replies :=
        (Connection.serveAll (Feed.serve ns feed) moment (latencyCommands queues)).2 ++ rest }
        queues = .ok (read, next) ↔
      Aged ns feed now moment queues read ∧ next = { server := server, replies := rest } := by
  induction queues generalizing moment read next with
  | nil =>
      constructor
      · intro received
        cases received
        exact ⟨.none, rfl⟩
      · rintro ⟨⟨⟩, rfl⟩
        rfl
  | cons queue queues ih =>
      obtain ⟨own, others⟩ := List.forall_mem_cons.mp empty
      simp only [receiveLatencies, bind_eq_ok_iff, Prod.exists]
      by_cases waiting : 0 < queue.count
      · have commands : latencyCommands (queue :: queues) =
            .lindexLast queue.jobName :: latencyCommands queues := by
          simp [latencyCommands, waiting]
        simp only [commands, Connection.serveAll, Feed.serve, List.cons_append,
          receiveLatency_eq_ok_iff waiting own]
        constructor
        · rintro ⟨first, _, ⟨⟨latency, aged, rfl⟩, rfl⟩, later, _, received, whole⟩
          obtain ⟨rest, rfl⟩ := (ih others).mp received
          cases whole
          exact ⟨.waiting waiting aged rest, rfl⟩
        · rintro ⟨aged, rfl⟩
          cases aged with
          | empty nothing => exact (nothing waiting).elim
          | waiting _ aged later =>
              exact ⟨_, _, ⟨⟨_, aged, rfl⟩, rfl⟩, _, _, (ih others).mpr ⟨later, rfl⟩, rfl⟩
      · have commands : latencyCommands (queue :: queues) = latencyCommands queues := by
          simp [latencyCommands, waiting]
        simp only [commands, receiveLatency, if_neg waiting]
        constructor
        · rintro ⟨first, _, kept, later, _, received, whole⟩
          cases kept
          obtain ⟨rest, rfl⟩ := (ih others).mp received
          cases whole
          exact ⟨.empty waiting rest, rfl⟩
        · rintro ⟨aged, rfl⟩
          cases aged with
          | empty _ later => exact ⟨_, _, rfl, _, _, (ih others).mpr ⟨later, rfl⟩, rfl⟩
          | waiting found => exact (waiting found).elim

end Replies

section Reading

variable {ns : String} {feed : Feed} {moment : ℕ} {now : Int64} {names : List String}
  {queues read : List Queue}

/-- The names and the missing latencies of the queues that have been counted. -/
theorem Counted.named (counted : Counted ns feed moment names queues) :
    queues.map Queue.jobName = names ∧ ∀ queue ∈ queues, queue.latency = 0 := by
  induction counted with
  | none => exact ⟨rfl, fun _ member => (List.not_mem_nil member).elim⟩
  | more _ _ _ _ ih =>
      exact ⟨by rw [List.map_cons, ih.1], List.forall_mem_cons.mpr ⟨rfl, ih.2⟩⟩

theorem Aged.named (aged : Aged ns feed now moment queues read) :
    read.map Queue.jobName = queues.map Queue.jobName := by
  induction aged with
  | none => rfl
  | empty _ _ ih | waiting _ _ _ ih => rw [List.map_cons, ih, List.map_cons]

/-- The latencies can be filled in if the oldest payloads are jobs, or gone, when they are
read. -/
theorem exists_aged_iff : (∃ read, Aged ns feed now moment queues read) ↔
    ∀ place queue, (queues.filter fun queue => 0 < queue.count)[place]? = some queue →
      (feed (moment + place)).Decodes ns queue.jobName := by
  induction queues generalizing moment with
  | nil => exact ⟨fun _ _ _ found => (nomatch found), fun _ => ⟨[], .none⟩⟩
  | cons queue queues ih =>
      by_cases waiting : 0 < queue.count
      · rw [List.filter_cons, if_pos (decide_eq_true waiting), ← Nat.and_forall_add_one]
        have others : (∀ place other,
            (queue :: queues.filter fun queue => 0 < queue.count)[place + 1]? = some other →
              (feed (moment + (place + 1))).Decodes ns other.jobName) ↔
            ∃ read, Aged ns feed now (moment + 1) queues read := by
          rw [ih]
          refine forall_congr' fun place => ?_
          rw [List.getElem?_cons_succ, Nat.add_right_comm, Nat.add_assoc]
        rw [others]
        simp only [List.getElem?_cons_zero, Option.some.injEq, forall_eq', Nat.add_zero,
          ← Database.isSome_latency_iff ns _ _ now]
        constructor
        · rintro ⟨_, aged⟩
          cases aged with
          | empty nothing => exact (nothing waiting).elim
          | waiting _ aged later => exact ⟨Option.isSome_iff_exists.mpr ⟨_, aged⟩, _, later⟩
        · rintro ⟨decodes, _, later⟩
          obtain ⟨latency, aged⟩ := Option.isSome_iff_exists.mp decodes
          exact ⟨_, .waiting waiting aged later⟩
      · rw [List.filter_cons, if_neg (by simp [waiting]), ← ih]
        constructor
        · rintro ⟨_, aged⟩
          cases aged with
          | empty _ later => exact ⟨_, later⟩
          | waiting found => exact (waiting found).elim
        · rintro ⟨_, later⟩
          exact ⟨_, .empty waiting later⟩

end Reading

/-- Flushing commands answers them one moment after the other. -/
theorem flush_sendAll (ns : String) (feed : Feed) (moment : ℕ) (commands : List QueryCommand) :
    (({ server := moment } : QueryConn ℕ).sendAll commands).flush (Feed.serve ns feed) =
      { server := moment + commands.length
        replies :=
          (Connection.serveAll (Feed.serve ns feed) moment commands).2 ++ [] } := by
  rw [Connection.sendAll_eq, Connection.flush, List.append_nil]
  simp only [List.nil_append, serveAll_serve]

/-- What a client shows: one entry for each known job in the order of the names, with the numbers
and the latency of its own queue at the moments of its own commands. -/
def Shown (ns : String) (feed : Feed) (now : Int64) (queues : List Queue) : Prop :=
  ∃ names counted, (feed 0).known ns = some names ∧ queues.map Queue.jobName = inOrder names ∧
    Counted ns feed 1 (inOrder names) counted ∧ Aged ns feed now (1 + 3 * names.card) counted queues

/-- The queues are returned exactly if they can be shown. -/
theorem queues_eq_ok_iff {ns : String} {feed : Feed} {now : Int64} {queues : List Queue} :
    (∃ conn, Client.queues (Feed.serve ns feed) { server := 0 } now = .ok (queues, conn)) ↔
      Shown ns feed now queues := by
  have listed : receiveNames ((({ server := 0 } : QueryConn ℕ).send .knownJobs).flush
      (Feed.serve ns feed)) =
    ((feed 0).known ns).elim (.error .redis) fun names => .ok (inOrder names, { server := 1 }) := by
    have answered : (((({ server := 0 } : QueryConn ℕ).send .knownJobs).flush
        (Feed.serve ns feed))) =
      { server := 1, replies := [((feed 0).known ns).elim .error .members] } := rfl
    rw [answered]
    cases (feed 0).known ns <;> rfl
  unfold Shown
  simp only [Client.queues, bind_eq_ok_iff, Prod.exists, listed]
  cases (feed 0).known ns with
  | none => simp
  | some names =>
      constructor
      · rintro ⟨conn, _, _, same, counted, _, received, read⟩
        cases same
        rw [flush_sendAll] at received
        obtain ⟨numbers, rfl⟩ := receiveQueues_eq_ok_iff.mp received
        obtain ⟨named, empty⟩ := numbers.named
        rw [flush_sendAll] at read
        obtain ⟨aged, -⟩ := (receiveLatencies_eq_ok_iff empty).mp read
        rw [length_queueCommands, inOrder, Finset.length_sort] at aged
        exact ⟨names, counted, rfl, aged.named.trans named, numbers, aged⟩
      · rintro ⟨_, counted, same, _, numbers, aged⟩
        cases same
        have moments : ((inOrder names).flatMap queueCommands).length = 3 * names.card := by
          rw [length_queueCommands, inOrder, Finset.length_sort]
        have received : receiveQueues ((({ server := 1 } : QueryConn ℕ).sendAll
            ((inOrder names).flatMap queueCommands)).flush (Feed.serve ns feed)) (inOrder names) =
              .ok (counted, { server := 1 + 3 * names.card }) := by
          rw [flush_sendAll, moments]
          exact receiveQueues_eq_ok_iff.mpr ⟨numbers, rfl⟩
        have read : receiveLatencies now ((({ server := 1 + 3 * names.card } : QueryConn ℕ).sendAll
            (latencyCommands counted)).flush (Feed.serve ns feed)) counted =
              .ok (queues,
                { server := 1 + 3 * names.card + (latencyCommands counted).length }) := by
          rw [flush_sendAll]
          exact (receiveLatencies_eq_ok_iff numbers.named.2).mpr ⟨aged, rfl⟩
        exact ⟨_, _, _, rfl, _, _, received, read⟩

/-- The numbers of all queues are legible when they are read, and so is the oldest payload of
each queue that was found not empty: it is a job, or gone. -/
def Readable (ns : String) (feed : Feed) : Prop :=
  ∃ names counted, (feed 0).known ns = some names ∧ Counted ns feed 1 (inOrder names) counted ∧
    ∀ place queue, (counted.filter fun queue => 0 < queue.count)[place]? = some queue →
      (feed (1 + 3 * names.card + place)).Decodes ns queue.jobName

/-- Run a script with the job names, for which the queues are read. -/
def withJobNames {Result : Type} (ns : String) (feed : Feed) (queriedAt : Int64)
    (script : List String → Result) : Except QueuesError Result := do
  let (queues, _) ← Client.queues (Feed.serve ns feed) { server := 0 } queriedAt
  return script (queues.map Queue.jobName)

/-- Retry a dead job. -/
def retryDeadJobCall (ns : String) (feed : Feed) (queriedAt : Int64) (database : Database)
    (now diedAt : Int64) (jobID : String) :
    Except QueuesError (Database × Option (Answer String)) :=
  withJobNames ns feed queriedAt fun jobNames =>
    ((Request.requeueSingleDead jobNames now diedAt jobID).script (Key.text ns)).run database

/-- Requeue dead jobs in batches of a thousand until a batch requeues none. The result says
whether no error occurred. -/
def retryBatches (ns : String) (jobNames : List String) (now : Int64) :
    ℕ → Database → Database × Bool
  | 0, database => (database, true)
  | iterations + 1, database =>
      match ((Request.requeueAllDead jobNames now 1000).script (Key.text ns)).run database with
      | (next, some (.count res)) =>
          if res = 0 then (next, true) else retryBatches ns jobNames now iterations next
      | (next, _) => (next, false)

/-- Retry all dead jobs. -/
def retryAllDeadJobsCall (ns : String) (feed : Feed) (queriedAt : Int64) (database : Database)
    (now : Int64) : Except QueuesError (Database × Bool) :=
  withJobNames ns feed queriedAt fun jobNames => retryBatches ns jobNames now 1000 database

/-- The queues are returned if and only if they are readable, and then as they are to be shown.
Retrying dead jobs depends on the queues in the same way, and on nothing but the names. -/
theorem queues_read_iff (ns : String) (feed : Feed) (queriedAt : Int64) :
    ((∃ result, Client.queues (Feed.serve ns feed) { server := 0 } queriedAt = .ok result) ↔
      Readable ns feed) ∧
    ∀ queues conn,
      Client.queues (Feed.serve ns feed) { server := 0 } queriedAt = .ok (queues, conn) →
        Shown ns feed queriedAt queues ∧
        (∀ database now diedAt jobID,
          retryDeadJobCall ns feed queriedAt database now diedAt jobID =
            .ok (((Request.requeueSingleDead (queues.map Queue.jobName) now diedAt jobID).script
              (Key.text ns)).run database)) ∧
        ∀ database now, retryAllDeadJobsCall ns feed queriedAt database now =
          .ok (retryBatches ns (queues.map Queue.jobName) now 1000 database) := by
  constructor
  · constructor
    · rintro ⟨⟨queues, conn⟩, returned⟩
      obtain ⟨names, counted, known, _, numbers, aged⟩ := queues_eq_ok_iff.mp ⟨conn, returned⟩
      exact ⟨names, counted, known, numbers, exists_aged_iff.mp ⟨queues, aged⟩⟩
    · rintro ⟨names, counted, known, numbers, decodes⟩
      obtain ⟨queues, aged⟩ : ∃ queues, Aged ns feed queriedAt _ counted queues :=
        exists_aged_iff.mpr decodes
      obtain ⟨conn, returned⟩ := queues_eq_ok_iff.mpr
        ⟨names, counted, known, aged.named.trans numbers.named.1, numbers, aged⟩
      exact ⟨_, returned⟩
  · intro queues conn returned
    refine ⟨queues_eq_ok_iff.mp ⟨conn, returned⟩, ?_, ?_⟩
    · intro database now diedAt jobID
      rw [retryDeadJobCall, withJobNames, returned]
      rfl
    · intro database now
      rw [retryAllDeadJobsCall, withJobNames, returned]
      rfl

/-- A database with two known jobs, one payload on a queue, and a dead job. -/
def mixed (oldest : RawJSON) (text : String) : Slot :=
  if text = Key.knownJobs.text "work" then some (.set {"mail", "send"})
  else if text = (Key.list (.jobs "mail")).text "work" then some (.list [oldest])
  else if text = (Key.zset .dead).text "work" then
    some (.zset (SortedSet.empty.add 1 (.json (Enqueuer.plainJob "send" "1" 0 none).serialize)))
  else none

theorem sort_mixed : inOrder {"mail", "send"} = ["mail", "send"] := by
  have first : (insert "mail" {"send"} : Finset String).sort =
      "mail" :: ({"send"} : Finset _).sort :=
    Finset.sort_insert _ (by decide) (by decide)
  exact first.trans (congrArg _ (Finset.sort_singleton _ _))

/-- Bytes that are not a job are on the queue when it is counted, but no longer when its oldest
payload is read. -/
def repaired : Feed := fun moment =>
  mixed (if moment < 7 then .text "oops"
    else .json (Enqueuer.plainJob "mail" "2" 3 none).serialize)

theorem queues_read_repaired :
    ∃ queues conn,
      Client.queues (Feed.serve "work" repaired) { server := 0 } 10 = .ok (queues, conn) ∧
        Shown "work" repaired 10 queues := by
  have counted : Counted "work" repaired 1 (inOrder {"mail", "send"})
      [{ jobName := "mail", count := 1, maxConcurrency := 0, lockCount := 0 },
        { jobName := "send", count := 0, maxConcurrency := 0, lockCount := 0 }] := by
    rw [sort_mixed]
    refine .more ?_ ?_ ?_ (.more ?_ ?_ ?_ .none) <;> decide +kernel
  have readable : Readable "work" repaired := by
    refine ⟨{"mail", "send"}, _, rfl, counted, ?_⟩
    intro place queue found
    cases place with
    | zero =>
        cases found
        exact ⟨_, rfl, by decide +kernel⟩
    | succ place => cases found
  obtain ⟨readable_iff, shown⟩ := queues_read_iff "work" repaired 10
  obtain ⟨⟨queues, conn⟩, returned⟩ := readable_iff.mpr readable
  exact ⟨queues, conn, returned, (shown queues conn returned).1⟩

/-- Bytes on one queue that are not a job keep the dead jobs of another from being retried. -/
theorem queues_panic :
    let database := mixed (.text "oops")
    Client.queues (Feed.serve "work" fun _ => database) { server := 0 } 10 =
        .error .nilDereference ∧
      retryDeadJobCall "work" (fun _ => database) 10 database 10 1 "1" = .error .nilDereference ∧
      (((Request.requeueSingleDead ["mail", "send"] 10 1 "1").script (Key.text "work")).run
        database).2 = some (.count 1) := by
  intro database
  have panicked : Client.queues (Feed.serve "work" fun _ => database) { server := 0 } 10 =
      .error .nilDereference := by
    have listed : receiveNames ((({ server := 0 } : QueryConn ℕ).send .knownJobs).flush
        (Feed.serve "work" fun _ => database)) =
      .ok (inOrder {"mail", "send"}, { server := 1 }) := rfl
    rw [Client.queues, listed, sort_mixed]
    rfl
  refine ⟨panicked, ?_, by decide +kernel⟩
  rw [retryDeadJobCall, withJobNames, panicked]
  rfl

end Client
