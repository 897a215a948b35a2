import WorkQueue.Enqueue.Serving

/-! # The replies of a bulk enqueue

A bulk enqueue sends its commands in one loop and receives the replies in another, and what
it sends depends on its options, on the known jobs and on the scripts that were refused. For
every server, it does what it would do if every reply were given to the code that sent the
command (`Enqueuer.bulkDirect`).
-/

/-- A successful map over a list begins with a success. -/
theorem Except.mapM_cons_ok {ε α β : Type} {f : α → Except ε β} {x : α} {xs : List α}
    {ys : List β} (done : (x :: xs).mapM f = .ok ys) :
    ∃ y rest, f x = .ok y ∧ xs.mapM f = .ok rest ∧ ys = y :: rest := by
  rw [List.mapM_cons] at done
  cases first : f x with
  | error error => rw [first] at done; cases done
  | ok y =>
      cases others : xs.mapM f with
      | error error => rw [first, others] at done; cases done
      | ok rest => rw [first, others] at done; cases done; exact ⟨y, rest, rfl, rfl, rfl⟩

namespace Enqueuer

section Direct

variable {Server : Type} (serve : Server → EnqueueCommand → Server × EnqueueAnswer)

/-- What the reply to the script of an item says if it was sent again. -/
def replayedStatus : EnqueueAnswer → Except BulkError Bool
  | .status ok => .ok (!ok)
  | .integer _ | .noScript | .error => .error .redis

/-- What the reply for the names that are not known says. -/
def knownStatus (enqueuer : Enqueuer) (now : Int64) (pending : List String) :
    Option EnqueueAnswer → Except BulkError Enqueuer
  | none => .ok enqueuer
  | some (.status _) | some (.integer _) =>
      .ok { enqueuer with
        knownJobs := fun name =>
          if name ∈ pending then some (now + 300) else enqueuer.knownJobs name }
  | some .noScript | some .error => .error .redis

/-- What the reply for the replicas says. -/
def waitStatus (enqueuer : Enqueuer) : Option EnqueueAnswer → Except BulkError Unit
  | none => .ok ()
  | some (.integer replicas) =>
      if replicas < enqueuer.minWaitReplicas then .error .replicationFailed else .ok ()
  | some (.status _) | some .noScript | some .error => .error .redis

/-- The second pass with every reply given to the code that sent the command. -/
def replayDirect (enqueuer : Enqueuer) (server : Server) (epochSeconds : Int64)
    (failed : List BulkItem) : Server × Except BulkError (List Bool) :=
  let (server, answers) := Connection.serveAll serve server
    (failed.map fun item => .eval (itemScript enqueuer.ns epochSeconds item))
  let (server, waited) := Connection.serveAll serve server enqueuer.waitCommands
  (server, do
    let replayed ← answers.mapM replayedStatus
    enqueuer.waitStatus waited.head?
    return replayed)

/-- A bulk enqueue with every reply given to the code that sent the command. -/
def bulkDirect (enqueuer : Enqueuer) (server : Server) (epochSeconds now : Int64)
    (items : List BulkItem) : Server × Enqueuer × Except BulkError (List BulkEnqueueResult) :=
  let pending := enqueuer.pendingJobNames now items
  let (server, answers) := Connection.serveAll serve server
    (items.map (itemCommand enqueuer.ns epochSeconds))
  let (server, known) := Connection.serveAll serve server (knownCommands pending)
  let (server, waited) := Connection.serveAll serve server enqueuer.waitCommands
  match (items.zip answers).mapM fun pair => itemStatus pair.1.1.unique pair.2 with
  | .error error => (server, enqueuer, .error error)
  | .ok statuses =>
      match enqueuer.knownStatus now pending known.head? with
      | .error error => (server, enqueuer, .error error)
      | .ok enqueuer =>
          match enqueuer.waitStatus waited.head? with
          | .error error => (server, enqueuer, .error error)
          | .ok () =>
              if failedItems items statuses = [] then
                (server, enqueuer,
                  .ok (bulkResults enqueuer.ns epochSeconds items (fillStatuses statuses [])))
              else
                match enqueuer.replayDirect serve server epochSeconds
                  (failedItems items statuses) with
                | (server, .error error) => (server, enqueuer, .error error)
                | (server, .ok replayed) =>
                    (server, enqueuer,
                      .ok (bulkResults enqueuer.ns epochSeconds items
                        (fillStatuses statuses replayed)))

end Direct

section Receiving

variable {Server : Type} (conn : Conn Server) (rest : List EnqueueAnswer)

/-- Every item gets its own reply. -/
theorem receiveStatuses_eq {items : List BulkItem} {answers : List EnqueueAnswer}
    (same : answers.length = items.length) :
    ∃ leftover, receiveStatuses { conn with replies := answers ++ rest } items =
        ({ conn with replies := leftover },
          (items.zip answers).mapM fun pair => itemStatus pair.1.1.unique pair.2) ∧
      ∀ statuses, ((items.zip answers).mapM fun pair => itemStatus pair.1.1.unique pair.2) =
        .ok statuses → leftover = rest := by
  induction items generalizing answers with
  | nil =>
      obtain rfl := List.eq_nil_of_length_eq_zero same
      exact ⟨rest, rfl, fun _ _ => rfl⟩
  | cons item items ih =>
      cases answers with
      | nil => cases same
      | cons answer answers =>
          obtain ⟨leftover, received, clean⟩ := ih (Nat.succ.inj same)
          rw [List.zip_cons_cons, List.mapM_cons, List.cons_append, receiveStatuses]
          simp only [Connection.receive]
          cases first : itemStatus item.1.unique answer with
          | error error => exact ⟨answers ++ rest, rfl, fun _ done => by cases done⟩
          | ok status =>
              simp only [received, bind, Except.bind]
              generalize ((items.zip answers).mapM fun pair =>
                itemStatus pair.1.1.unique pair.2) = others at clean ⊢
              cases others with
              | error error => exact ⟨leftover, rfl, fun _ done => by cases done⟩
              | ok statuses => exact ⟨leftover, rfl, fun _ _ => clean statuses rfl⟩

/-- Every script that was sent again gets its own reply. -/
theorem receiveReplayed_eq {items : List BulkItem} {answers : List EnqueueAnswer}
    (same : answers.length = items.length) :
    ∃ leftover, receiveReplayed { conn with replies := answers ++ rest } items =
        ({ conn with replies := leftover }, answers.mapM replayedStatus) ∧
      ∀ replayed, answers.mapM replayedStatus = .ok replayed → leftover = rest := by
  induction items generalizing answers with
  | nil =>
      obtain rfl := List.eq_nil_of_length_eq_zero same
      exact ⟨rest, rfl, fun _ _ => rfl⟩
  | cons item items ih =>
      cases answers with
      | nil => cases same
      | cons answer answers =>
          obtain ⟨leftover, received, clean⟩ := ih (Nat.succ.inj same)
          rw [List.mapM_cons, List.cons_append, receiveReplayed]
          simp only [Connection.receive]
          cases answer with
          | status ok =>
              simp only [received, replayedStatus, bind, Except.bind]
              generalize answers.mapM replayedStatus = others at clean ⊢
              cases others with
              | error error => exact ⟨leftover, rfl, fun _ done => by cases done⟩
              | ok replayed => exact ⟨leftover, rfl, fun _ _ => clean replayed rfl⟩
          | integer value | noScript | error =>
              exact ⟨answers ++ rest, rfl, fun _ done => by cases done⟩

/-- The code for the known jobs gets the reply to its command, if it has sent one. -/
theorem receiveKnownJobs_eq (enqueuer : Enqueuer) (now : Int64) {pending : List String}
    {answers : List EnqueueAnswer} (same : answers.length = (knownCommands pending).length) :
    enqueuer.receiveKnownJobs { conn with replies := answers ++ rest } now pending =
      ({ conn with replies := rest }, enqueuer.knownStatus now pending answers.head?) := by
  unfold receiveKnownJobs
  unfold knownCommands at same
  by_cases nothing : pending = []
  · rw [if_pos nothing] at same ⊢
    obtain rfl := List.eq_nil_of_length_eq_zero same
    rfl
  · rw [if_neg nothing] at same ⊢
    obtain ⟨answer, rfl⟩ := List.length_eq_one_iff.mp same
    cases answer <;> rfl

/-- The code for the replicas gets the reply to its command, if it has sent one. -/
theorem receiveWait_waitCommands (enqueuer : Enqueuer) {answers : List EnqueueAnswer}
    (same : answers.length = enqueuer.waitCommands.length) :
    enqueuer.receiveWait { conn with replies := answers ++ rest } =
      ({ conn with replies := rest }, enqueuer.waitStatus answers.head?) := by
  unfold receiveWait
  unfold waitCommands at same
  by_cases waits : 0 < enqueuer.minWaitReplicas
  · rw [if_pos waits] at same ⊢
    obtain ⟨answer, rfl⟩ := List.length_eq_one_iff.mp same
    cases answer <;> rfl
  · rw [if_neg waits] at same ⊢
    obtain rfl := List.eq_nil_of_length_eq_zero same
    rfl

end Receiving

section Sending

variable {Server : Type} (serve : Server → EnqueueCommand → Server × EnqueueAnswer)

/-- Only the times of the known jobs are changed by their reply. -/
theorem of_knownStatus {enqueuer after : Enqueuer} {now : Int64} {pending : List String}
    {answer : Option EnqueueAnswer} (known : enqueuer.knownStatus now pending answer = .ok after) :
    ∃ knownJobs, after = { enqueuer with knownJobs := knownJobs } := by
  cases answer with
  | none => cases known; exact ⟨_, rfl⟩
  | some answer => cases answer <;> cases known <;> exact ⟨_, rfl⟩

/-- The second pass gives every reply to the code that sent the command. -/
theorem bulkReplay_eq_direct (enqueuer : Enqueuer) (server : Server) (epochSeconds : Int64)
    (failed : List BulkItem) :
    ∃ leftover, enqueuer.bulkReplay serve { server := server } epochSeconds failed =
        ({ server := (enqueuer.replayDirect serve server epochSeconds failed).1
           replies := leftover }, (enqueuer.replayDirect serve server epochSeconds failed).2) ∧
      ∀ replayed, (enqueuer.replayDirect serve server epochSeconds failed).2 = .ok replayed →
        leftover = [] := by
  unfold bulkReplay replayDirect
  simp only [Connection.sendAll_eq, sendWait_eq, Connection.flush, List.nil_append,
    Connection.serveAll_append]
  have answered := Connection.length_serveAll serve server
    (failed.map fun item => .eval (itemScript enqueuer.ns epochSeconds item))
  rw [List.length_map] at answered
  generalize Connection.serveAll serve server
    (failed.map fun item => .eval (itemScript enqueuer.ns epochSeconds item)) = first at answered ⊢
  have waited := Connection.length_serveAll serve first.1 enqueuer.waitCommands
  generalize Connection.serveAll serve first.1 enqueuer.waitCommands = second at waited ⊢
  obtain ⟨leftover, received, clean⟩ :=
    receiveReplayed_eq { server := second.1 } second.2 answered
  simp only [received]
  generalize first.2.mapM replayedStatus = replayed at clean ⊢
  cases replayed with
  | error error => exact ⟨leftover, rfl, fun _ done => by cases done⟩
  | ok replayed =>
      obtain rfl := clean replayed rfl
      have last := receiveWait_waitCommands { server := second.1 } [] enqueuer waited
      rw [List.append_nil] at last
      simp only [last, bind, Except.bind]
      cases enqueuer.waitStatus second.2.head? with
      | error error => exact ⟨[], rfl, fun _ done => by cases done⟩
      | ok done => exact ⟨[], rfl, fun _ _ => rfl⟩

/-- A bulk enqueue gives every reply to the code that sent the command, and has received all
of them if it succeeds. -/
theorem bulkEnqueue_eq_direct (enqueuer : Enqueuer) (server : Server) (epochSeconds now : Int64)
    (items : List BulkItem) :
    ∃ leftover, enqueuer.bulkEnqueue serve { server := server } epochSeconds now items =
        ({ server := (enqueuer.bulkDirect serve server epochSeconds now items).1
           replies := leftover }, (enqueuer.bulkDirect serve server epochSeconds now items).2) ∧
      ∀ results, (enqueuer.bulkDirect serve server epochSeconds now items).2.2 = .ok results →
        leftover = [] := by
  unfold bulkEnqueue bulkDirect
  simp only [Connection.sendAll_eq, sendBulkKnownJobs_eq, sendWait_eq,
    Connection.flush, List.nil_append, List.append_assoc, Connection.serveAll_append]
  have answered := Connection.length_serveAll serve server
    (items.map (itemCommand enqueuer.ns epochSeconds))
  rw [List.length_map] at answered
  generalize Connection.serveAll serve server
    (items.map (itemCommand enqueuer.ns epochSeconds)) = first at answered ⊢
  have told := Connection.length_serveAll serve first.1
    (knownCommands (enqueuer.pendingJobNames now items))
  generalize Connection.serveAll serve first.1
    (knownCommands (enqueuer.pendingJobNames now items)) = second at told ⊢
  have waited := Connection.length_serveAll serve second.1 enqueuer.waitCommands
  generalize Connection.serveAll serve second.1 enqueuer.waitCommands = third at waited ⊢
  obtain ⟨leftover, received, clean⟩ :=
    receiveStatuses_eq { server := third.1 } (second.2 ++ third.2) answered
  simp only [received]
  generalize ((items.zip first.2).mapM fun pair => itemStatus pair.1.1.unique pair.2) =
    statuses at clean ⊢
  cases statuses with
  | error error => exact ⟨leftover, rfl, fun _ done => by cases done⟩
  | ok statuses =>
      obtain rfl := clean statuses rfl
      simp only [receiveKnownJobs_eq { server := third.1 } third.2 enqueuer now told]
      cases known : enqueuer.knownStatus now (enqueuer.pendingJobNames now items)
        second.2.head? with
      | error error => exact ⟨third.2, rfl, fun _ done => by cases done⟩
      | ok after =>
          obtain ⟨knownJobs, rfl⟩ := of_knownStatus known
          have last := receiveWait_waitCommands { server := third.1 } []
            { enqueuer with knownJobs := knownJobs } waited
          rw [List.append_nil] at last
          simp only [last]
          cases ({ enqueuer with knownJobs := knownJobs } : Enqueuer).waitStatus third.2.head? with
          | error error => exact ⟨[], rfl, fun _ done => by cases done⟩
          | ok done =>
              by_cases nothing : failedItems items statuses = []
              · simp only [if_pos nothing]
                exact ⟨[], rfl, fun _ _ => rfl⟩
              · obtain ⟨leftover, replayed, clean⟩ := bulkReplay_eq_direct serve
                  { enqueuer with knownJobs := knownJobs } third.1 epochSeconds
                  (failedItems items statuses)
                simp only [if_neg nothing, replayed]
                generalize ({ enqueuer with knownJobs := knownJobs } : Enqueuer).replayDirect serve
                  third.1 epochSeconds (failedItems items statuses) = again at clean ⊢
                obtain ⟨final, again⟩ := again
                cases again with
                | error error => exact ⟨leftover, rfl, fun _ done => by cases done⟩
                | ok replayed => exact ⟨leftover, rfl, fun _ _ => clean replayed rfl⟩

variable {serve} in
/-- What a second pass that succeeds has done. -/
theorem replayDirect_ok {enqueuer : Enqueuer} {server next last final : Server}
    {epochSeconds : Int64} {failed : List BulkItem} {answers waited : List EnqueueAnswer}
    {replayed : List Bool}
    (again : Connection.serveAll serve server
      (failed.map fun item => .eval (itemScript enqueuer.ns epochSeconds item)) = (next, answers))
    (waits : Connection.serveAll serve next enqueuer.waitCommands = (last, waited))
    (done : enqueuer.replayDirect serve server epochSeconds failed = (final, .ok replayed)) :
    final = last ∧ answers.mapM replayedStatus = .ok replayed ∧
      enqueuer.waitStatus waited.head? = .ok () := by
  unfold replayDirect at done
  simp only [again, waits, bind, Except.bind] at done
  obtain ⟨rfl, done⟩ := Prod.mk.inj done
  refine ⟨rfl, ?_⟩
  cases read : answers.mapM replayedStatus with
  | error error => rw [read] at done; cases done
  | ok flags =>
      rw [read] at done
      cases enough : enqueuer.waitStatus waited.head? with
      | error error => rw [enough] at done; cases done
      | ok granted => rw [enough] at done; cases done; exact ⟨rfl, rfl⟩

variable {serve} in
/-- What a bulk enqueue that succeeds has done. -/
theorem bulkDirect_ok {enqueuer after : Enqueuer} {server next told last final : Server}
    {epochSeconds now : Int64} {items : List BulkItem}
    {answers known waited : List EnqueueAnswer} {results : List BulkEnqueueResult}
    (first : Connection.serveAll serve server
      (items.map (itemCommand enqueuer.ns epochSeconds)) = (next, answers))
    (tells : Connection.serveAll serve next
      (knownCommands (enqueuer.pendingJobNames now items)) = (told, known))
    (waits : Connection.serveAll serve told enqueuer.waitCommands = (last, waited))
    (done : enqueuer.bulkDirect serve server epochSeconds now items =
      (final, after, .ok results)) :
    ∃ statuses,
      ((items.zip answers).mapM fun pair => itemStatus pair.1.1.unique pair.2) = .ok statuses ∧
      enqueuer.knownStatus now (enqueuer.pendingJobNames now items) known.head? = .ok after ∧
      after.waitStatus waited.head? = .ok () ∧
      if failedItems items statuses = [] then
        final = last ∧
          results = bulkResults after.ns epochSeconds items (fillStatuses statuses [])
      else
        ∃ replayed,
          after.replayDirect serve last epochSeconds (failedItems items statuses) =
            (final, .ok replayed) ∧
          results = bulkResults after.ns epochSeconds items (fillStatuses statuses replayed) := by
  unfold bulkDirect at done
  simp only [first, tells, waits] at done
  cases read : (items.zip answers).mapM fun pair => itemStatus pair.1.1.unique pair.2 with
  | error error => rw [read] at done; cases done
  | ok statuses =>
      simp only [read] at done
      cases remembered : enqueuer.knownStatus now (enqueuer.pendingJobNames now items)
        known.head? with
      | error error => rw [remembered] at done; cases done
      | ok remembering =>
          simp only [remembered] at done
          cases enough : remembering.waitStatus waited.head? with
          | error error => rw [enough] at done; cases done
          | ok granted =>
              simp only [enough] at done
              by_cases nothing : failedItems items statuses = []
              · simp only [if_pos nothing] at done
                cases done
                exact ⟨statuses, rfl, rfl, enough, by rw [if_pos nothing]; exact ⟨rfl, rfl⟩⟩
              · simp only [if_neg nothing] at done
                cases again : remembering.replayDirect serve last epochSeconds
                  (failedItems items statuses) with
                | mk after replayed =>
                    rw [again] at done
                    cases replayed with
                    | error error => cases done
                    | ok replayed =>
                        cases done
                        refine ⟨statuses, rfl, rfl, enough, ?_⟩
                        rw [if_neg nothing]
                        exact ⟨replayed, again, rfl⟩

end Sending

section Settling

variable (ns : String) (epochSeconds : Int64)

variable {ns epochSeconds}

end Settling

section Transcript

variable {Server : Type} {serve : Server → EnqueueCommand → Server × EnqueueAnswer}

end Transcript

section Store

variable {enqueuer after : Enqueuer} {epochSeconds now : Int64} {items : List BulkItem}

/-- The items without a status are those whose script was refused. -/
theorem failedItems_itemCommands {ns : String} {redis : RedisServer}
    {statuses : List (Option Bool)}
    (read : ((items.zip (Connection.serveAll RedisServer.serve redis
      (items.map (itemCommand ns epochSeconds))).2).mapM
        fun pair => itemStatus pair.1.1.unique pair.2) = .ok statuses) :
    failedItems items statuses =
      items.filter fun item => !direct ns epochSeconds redis.loaded item := by
  induction items generalizing redis statuses with
  | nil => cases read; rfl
  | cons item items ih =>
      rw [List.map_cons, Connection.serveAll, List.zip_cons_cons] at read
      obtain ⟨status, statuses, own, others, rfl⟩ := Except.mapM_cons_ok read
      have served := serve_itemCommand ns epochSeconds redis item
      split at served
      · next executed =>
          rw [served.2] at own
          rw [served.1] at others
          cases own
          have rest := ih others
          rw [List.filter_cons_of_neg (by simpa using executed)]
          exact rest
      · next refused =>
          rw [served.1, itemStatus, if_pos served.2] at own
          rw [served.1] at others
          cases own
          rw [List.filter_cons_of_pos (by simpa using refused), ← ih others]
          rfl

/-- A bulk enqueue that succeeds has served every item once. -/
theorem store_of_ok {redis final : RedisServer} {results : List BulkEnqueueResult}
    (done : enqueuer.bulkDirect RedisServer.serve redis epochSeconds now items =
      (final, after, .ok results)) :
    final.store = Pool.saddKnownJobs
      (enqueueItems enqueuer.ns epochSeconds redis.store
        (bulkOrder enqueuer.ns epochSeconds redis.loaded items))
      (enqueuer.pendingJobNames now items) := by
  obtain ⟨statuses, read, remembered, -, ended⟩ := bulkDirect_ok rfl rfl rfl done
  obtain ⟨knownJobs, rfl⟩ := of_knownStatus remembered
  rw [failedItems_itemCommands read, server_itemCommands, server_knownCommands] at ended
  by_cases nothing : (items.filter fun item =>
      !direct enqueuer.ns epochSeconds redis.loaded item) = []
  · rw [if_pos nothing] at ended
    rw [ended.1, server_waitCommands, bulkOrder, nothing, List.append_nil]
  · rw [if_neg nothing] at ended
    obtain ⟨replayed, replay, -⟩ := ended
    obtain ⟨rfl, -⟩ := replayDirect_ok rfl rfl replay
    obtain ⟨served, -⟩ := server_replayed enqueuer.ns epochSeconds
      (fun item => unique_of_deferred enqueuer.ns epochSeconds) _
    rw [server_waitCommands, served, server_waitCommands, bulkOrder, enqueueItems_append]
    exact enqueueItems_saddKnownJobs _

end Store

end Enqueuer
