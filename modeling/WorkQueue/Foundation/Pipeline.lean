import Mathlib.Data.List.Basic

/-! # Pipelined connections

A connection buffers the commands that are sent. Flushing lets the server execute them in
order, and its replies are received one at a time, oldest first. A server can be made to
record every command with the reply it causes (`Connection.recorded`).
-/

/-- A connection to a server: the commands not flushed yet and the replies not received yet. -/
structure Connection (Server Command Answer : Type) where
  server : Server
  sent : List Command := []
  replies : List Answer := []

namespace Connection

variable {Server Command Answer : Type} (serve : Server → Command → Server × Answer)

/-- Execute commands in order and collect their replies. -/
def serveAll : Server → List Command → Server × List Answer
  | server, [] => (server, [])
  | server, command :: commands =>
      ((serveAll (serve server command).1 commands).1,
        (serve server command).2 :: (serveAll (serve server command).1 commands).2)

/-- Buffer a command. -/
def send (conn : Connection Server Command Answer) (command : Command) :
    Connection Server Command Answer :=
  { conn with sent := conn.sent ++ [command] }

/-- Buffer commands in order. -/
def sendAll (conn : Connection Server Command Answer) (commands : List Command) :
    Connection Server Command Answer :=
  commands.foldl send conn

/-- Let the server execute what has been sent. -/
def flush (conn : Connection Server Command Answer) : Connection Server Command Answer :=
  { server := (serveAll serve conn.server conn.sent).1
    sent := []
    replies := conn.replies ++ (serveAll serve conn.server conn.sent).2 }

/-- Receive the oldest reply, if there is one. -/
def receive (conn : Connection Server Command Answer) :
    Option (Answer × Connection Server Command Answer) :=
  match conn.replies with
  | [] => none
  | answer :: rest => some (answer, { conn with replies := rest })

theorem sendAll_eq (conn : Connection Server Command Answer) (commands : List Command) :
    conn.sendAll commands = { conn with sent := conn.sent ++ commands } := by
  unfold sendAll
  induction commands generalizing conn with
  | nil => rw [List.foldl_nil, List.append_nil]
  | cons command commands ih => rw [List.foldl_cons, ih, send, List.append_assoc]; rfl

theorem serveAll_append (server : Server) (first second : List Command) :
    serveAll serve server (first ++ second) =
      ((serveAll serve (serveAll serve server first).1 second).1,
        (serveAll serve server first).2 ++
          (serveAll serve (serveAll serve server first).1 second).2) := by
  induction first generalizing server with
  | nil => rfl
  | cons command first ih => simp only [List.cons_append, serveAll, ih]

theorem length_serveAll (server : Server) (commands : List Command) :
    (serveAll serve server commands).2.length = commands.length := by
  induction commands generalizing server with
  | nil => rfl
  | cons command commands ih => simp only [serveAll, List.length_cons, ih]

/-- A server that records every command with its reply. -/
def recorded (state : Server × List (Command × Answer)) (command : Command) :
    (Server × List (Command × Answer)) × Answer :=
  (((serve state.1 command).1, state.2 ++ [(command, (serve state.1 command).2)]),
    (serve state.1 command).2)

section Served

variable {serve} {server next : Server} {commands : List Command} {answers : List Answer}

end Served

end Connection
