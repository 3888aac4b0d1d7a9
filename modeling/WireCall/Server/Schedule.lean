import WireCall.Server

/-!
# A schedule for the server

What a server does between two events from outside, in one order of its steps. On every connection
all requests that have arrived are read before any of their tasks runs; the tasks then run, and
respond, in the order of their requests. Time stands still until the server is at rest.

A schedule only chooses among the steps that are possible (`Server.attempt`), so what holds of all
sequences of steps holds of it.
-/

namespace WireCall

namespace Server

/-- Takes a step if it is possible. -/
def attempt (s : Server) (a : Action) : Server := (s.step a).getD s

/-- Takes the steps that are possible, one after another. -/
def attemptAll (s : Server) (actions : List Action) : Server := actions.foldl attempt s

/-- The bytes of a connection that no request has been made of. -/
def waitingBytes (s : Server) (i : Nat) : Nat :=
  match s.serving? i with
  | some c => c.reader.source.unread.length + c.reader.decoder.buffered
  | none => 0

/-- Reads requests as long as they come. -/
def readAll (i : Nat) : (fuel : Nat) → Server → Server
  | 0, s => s
  | fuel + 1, s =>
    let after := s.attempt (.read i)
    if s.stats.requestsTotal = after.stats.requestsTotal then after else readAll i fuel after

/-- How many tasks a connection has had. -/
def taskCount (s : Server) (i : Nat) : Nat :=
  match s.serving? i with
  | some c => c.tasks.length
  | none => 0

/-- Runs the tasks of a connection in their order. -/
def runTasks (s : Server) (i : Nat) : Server :=
  (List.range (s.taskCount i)).foldl
    (fun s t => s.attemptAll [.call i t, .wake i t, .respond i t]) s

/-- Does what one connection can do without time passing. -/
def settleConnection (s : Server) (i : Nat) : Server :=
  let s := s.attemptAll [.serve i, .negotiate i, .expire i]
  let s := readAll i (s.waitingBytes i + 1) s
  (s.runTasks i).attemptAll [.noticeFailure i, .noticeShutdown i, .close i]

/-- Does everything that needs no time to pass. -/
def settle (s : Server) : Server :=
  let numbers := List.range s.connections.length
  let s := s.attemptAll (.subscribe :: numbers.map Action.accept ++ [.stopListening])
  numbers.foldl settleConnection s

/-- The times at which something happens by itself. -/
def dueTimes (s : Server) : List Nat := s.connections.flatMap Connection.dueTimes

/-- The first of these times. -/
def nextDue? (s : Server) : Option Nat := s.dueTimes.min?

/-- The times at which something happens by itself, up to a given one, in their order. -/
def dueUntil (s : Server) (limit : Nat) : List Nat :=
  (s.dueTimes.filter (· ≤ limit)).mergeSort.eraseReps

/-- Lets time pass up to the given moment. -/
def passUntil (s : Server) (moment : Nat) : Server := s.attempt (.pass (moment - s.now))

/-- Lets time pass, coming to rest whenever something happens. -/
def advance (s : Server) (ms : Nat) : Server :=
  let limit := s.now + ms
  ((s.dueUntil limit).foldl (fun s due => (s.passUntil due).settle) s).passUntil limit

/-- The state at rest after an action. -/
def act (s : Server) (a : Action) : Server := (s.attempt a).settle

end Server

end WireCall
