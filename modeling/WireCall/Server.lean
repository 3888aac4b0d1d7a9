import WireCall.Server.Connection

/-!
# The server

A server is a state and the single steps by which it changes. `Server.step` says for each action
whether it is possible now and what it leads to; the theory of the server speaks about all
sequences of actions, so every order in which connections are served, handlers finish and
responses are written is among them. `Server.settle` is one such order, in which everything comes
to rest that does not need time to pass.
-/

namespace WireCall

/-- What a server is set up with. -/
structure ServerSettings where
  /-- how long a client may take to send its options, in milliseconds -/
  handshakeTimeout : Nat := 10000
  maxConnections : Nat := 1000
  deriving DecidableEq, Repr

/-- What a server counts. The numbers have 64 bits, and behind the last of them they begin again
from 0. -/
structure Stats where
  connectionsTotal : UInt64 := 0
  connectionsActive : UInt64 := 0
  requestsTotal : UInt64 := 0
  errorsTotal : UInt64 := 0
  deriving DecidableEq, Repr

/-- The loop that accepts connections. -/
inductive Listening where
  /-- it has not been entered, or has ended -/
  | idle
  /-- it has been entered, and does not hear of a shutdown yet -/
  | entered
  /-- it accepts connections; whether a shutdown has been heard -/
  | accepting (signalled : Bool)
  deriving DecidableEq, Repr

/-- A server. -/
structure Server where
  settings : ServerSettings := {}
  registry : Registry := {}
  stats : Stats := {}
  /-- all connections there have been, in the order of their arrival -/
  connections : List Connection := []
  listening : Listening := .idle
  /-- the time, in milliseconds -/
  now : Nat := 0

/-- The single steps of a server. Connections and tasks are named by their numbers. -/
inductive Server.Action where
  /-- a client arrives at the listener -/
  | arrive (sink : Sink)
  /-- a connection is handed over to be served at once -/
  | handOver (sink : Sink)
  /-- some bytes of the client arrive -/
  | receive (i : Nat) (piece : Bytes)
  /-- the stream of the client ends -/
  | hangUp (i : Nat) (e : Ending)
  /-- the accepting loop is entered -/
  | listen
  /-- the accepting loop begins to hear of a shutdown -/
  | subscribe
  /-- the accepting loop takes a client -/
  | accept (i : Nat)
  /-- the accepting loop ends for a shutdown -/
  | stopListening
  /-- the serving of an accepted connection begins -/
  | serve (i : Nat)
  /-- the options are read, as far as they have arrived -/
  | negotiate (i : Nat)
  /-- the time for the options is over -/
  | expire (i : Nat)
  /-- the next request is read, as far as it has arrived -/
  | read (i : Nat)
  /-- reading stops for a response that could not be written -/
  | noticeFailure (i : Nat)
  /-- reading stops for a shutdown -/
  | noticeShutdown (i : Nat)
  /-- a task makes its call -/
  | call (i t : Nat)
  /-- a sleeping handler ends -/
  | wake (i t : Nat)
  /-- a task writes its response -/
  | respond (i t : Nat)
  /-- a connection is closed that has nothing left to answer -/
  | close (i : Nat)
  /-- the server is told to shut down -/
  | shutdown
  /-- time passes -/
  | pass (ms : Nat)

namespace Server

/-! ## Parts of a state -/

/-- The connection of the given number, if it is being served. -/
def serving? (s : Server) (i : Nat) : Option Serving :=
  match s.connections[i]? with
  | some (.serving c) => some c
  | _ => none

/-- The state with one connection replaced. -/
def setConnection (s : Server) (i : Nat) (c : Connection) : Server :=
  { s with connections := s.connections.set i c }

/-- The state with one connection under service changed. -/
def setServing (s : Server) (i : Nat) (c : Serving) : Server := s.setConnection i (.serving c)

/-- One more error. -/
def countError (s : Server) : Server :=
  { s with stats := { s.stats with errorsTotal := s.stats.errorsTotal + 1 } }

/-- One more request. -/
def countRequest (s : Server) : Server :=
  { s with stats := { s.stats with requestsTotal := s.stats.requestsTotal + 1 } }

/-- One more connection. -/
def countEntered (s : Server) : Server :=
  { s with stats := { s.stats with
      connectionsTotal := s.stats.connectionsTotal + 1
      connectionsActive := s.stats.connectionsActive + 1 } }

/-- One connection less. -/
def countLeft (s : Server) : Server :=
  { s with stats := { s.stats with connectionsActive := s.stats.connectionsActive - 1 } }

/-- Publishes a service. -/
def register (s : Server) (service : Service) : Except ServeError Server := do
  let registry ← s.registry.register service
  pure { s with registry }

/-- The method that a request names. -/
def resolve (s : Server) (request : String) : Except ServeError Method := s.registry.resolve request

/-- Whether the accepting loop has been entered and has not ended. -/
def isRunning (s : Server) : Bool := s.listening ≠ .idle

/-! ## Steps of a connection -/

/-- The serving of a connection begins. -/
def enter (s : Server) (i : Nat) (source : Source) (sink : Sink) : Server :=
  let deadline := s.now + s.settings.handshakeTimeout
  (s.setConnection i (.negotiating [] deadline source sink)).countEntered

/-- The serving of a connection ends with a failed negotiation. -/
def refuse (s : Server) (i : Nat) (e : ServeError) (sink : Sink) : Server :=
  (s.setConnection i (.refused e sink)).countError.countLeft

/-- Reads the options, as far as they have arrived. -/
def negotiate (s : Server) (i : Nat) : Option Server :=
  match s.connections[i]? with
  | some (.negotiating buffer deadline source sink) =>
    match Negotiation.receive buffer source with
    | (.waits buffer, source) =>
      some (s.setConnection i (.negotiating buffer deadline source sink))
    | (.refused e, _) => some (s.refuse i (.wire e) sink)
    | (.agreed o rest, source) =>
      some (s.setServing i
        { reader := .make o.codec rest source, writer := { codec := o.codec, sink } })
  | _ => none

/-- Gives up a connection whose options have not arrived in time. -/
def expire (s : Server) (i : Nat) : Option Server :=
  match s.connections[i]? with
  | some (.negotiating buffer deadline source sink) =>
    match Negotiation.receive buffer source with
    | (.waits _, _) => if deadline ≤ s.now then some (s.refuse i .handshakeTimeout sink) else none
    | _ => none
  | _ => none

/-- Reads the next request, as far as it has arrived, and starts a task for it. -/
def read (s : Server) (i : Nat) : Option Server :=
  match s.serving? i with
  | none => none
  | some c =>
    if c.reading then
      match c.reader.readHeader with
      | (.waits, reader) => some (s.setServing i { c with reader })
      | (.failed _, reader) => some (s.setServing i { c with reader, reading := false })
      | (.got h, reader) =>
        let (request, reader) := Request.read s.registry h reader
        some (s.setServing i { c with reader, tasks := c.tasks ++ [.waiting request] }).countRequest
    else none

/-- Stops reading for a response that could not be written. -/
def noticeFailure (s : Server) (i : Nat) : Option Server :=
  match s.serving? i with
  | none => none
  | some c =>
    if c.reading ∧ c.writeFailed then
      some (s.setServing i { c with reading := false, writeFailed := false })
    else none

/-- Stops reading for a shutdown. -/
def noticeShutdown (s : Server) (i : Nat) : Option Server :=
  match s.serving? i with
  | none => none
  | some c =>
    if c.reading ∧ c.signalled then
      some (s.setServing i { c with reading := false, signalled := false })
    else none

/-- Closes a connection that has nothing left to answer. -/
def close (s : Server) (i : Nat) : Option Server :=
  match s.serving? i with
  | none => none
  | some c =>
    if ¬ c.reading ∧ c.tasks.all Task.isFinished then
      some (s.setConnection i (.served { c with writer := c.writer.close.2 })).countLeft
    else none

/-! ## Steps of a task -/

/-- The state with one task changed. -/
def setTask (s : Server) (i : Nat) (c : Serving) (t : Nat) (task : Task) : Server :=
  s.setServing i { c with tasks := c.tasks.set t task }

/-- A call has come to an end and its response is to be written. -/
def conclude (s : Server) (i : Nat) (c : Serving) (t : Nat) (h : Header)
    (result : Except String Bytes) : Server :=
  let after := s.setTask i c t (.responding (.make c.writer.codec h result))
  match result with
  | .ok _ => after
  | .error _ => after.countError

/-- Makes the call of a task. -/
def call (s : Server) (i t : Nat) : Option Server :=
  match s.serving? i with
  | none => none
  | some c =>
    match c.tasks[t]? with
    | some (.waiting ⟨h, .error e⟩) => some (s.conclude i c t h (.error e.message))
    | some (.waiting ⟨h, .ok p⟩) =>
      let (registry, plan) := s.registry.invoke p
      let s := { s with registry }
      let result := p.method.answer c.writer.codec h.method plan.outcome
      if plan.delay = 0 then some (s.conclude i c t h result)
      else some (s.setTask i c t (.sleeping h (s.now + plan.delay) result))
    | _ => none

/-- Ends the sleep of a handler. -/
def wake (s : Server) (i t : Nat) : Option Server :=
  match s.serving? i with
  | none => none
  | some c =>
    match c.tasks[t]? with
    | some (.sleeping h due result) =>
      if due ≤ s.now then some (s.conclude i c t h result) else none
    | _ => none

/-- Writes the response of a task. -/
def respond (s : Server) (i t : Nat) : Option Server :=
  match s.serving? i with
  | none => none
  | some c =>
    match c.tasks[t]? with
    | some (.responding r) =>
      match c.writer.writeEncoded r.header r.body with
      | (.ok (), writer) => some (s.setTask i { c with writer } t .finished)
      | (.error _, writer) => some (s.setTask i { c with writer, writeFailed := true } t .finished)
    | _ => none

/-! ## All steps -/

/-- Takes a client from the listener, unless there are too many connections. -/
def accept (s : Server) (i : Nat) : Option Server :=
  match s.listening, s.connections[i]? with
  | .accepting _, some (.arrived source sink) =>
    if s.stats.connectionsActive.toNat ≥ s.settings.maxConnections then
      some (s.setConnection i .turnedAway)
    else some (s.setConnection i (.accepted source sink))
  | _, _ => none

/-- What an action leads to, if it is possible. -/
def step (s : Server) : Action → Option Server
  | .arrive sink => some { s with connections := s.connections ++ [.arrived {} sink] }
  | .handOver sink =>
    let after : Server := { s with connections := s.connections ++ [.accepted {} sink] }
    some (after.enter s.connections.length {} sink)
  | .receive i piece =>
    some { s with connections := s.connections.modify i (.mapSource (·.arrive piece)) }
  | .hangUp i e =>
    some { s with connections := s.connections.modify i (.mapSource (·.finish e)) }
  | .listen => if s.listening = .idle then some { s with listening := .entered } else none
  | .subscribe =>
    if s.listening = .entered then some { s with listening := .accepting false } else none
  | .accept i => s.accept i
  | .stopListening =>
    if s.listening = .accepting true then some { s with listening := .idle } else none
  | .serve i =>
    match s.connections[i]? with
    | some (.accepted source sink) => some (s.enter i source sink)
    | _ => none
  | .negotiate i => s.negotiate i
  | .expire i => s.expire i
  | .read i => s.read i
  | .noticeFailure i => s.noticeFailure i
  | .noticeShutdown i => s.noticeShutdown i
  | .call i t => s.call i t
  | .wake i t => s.wake i t
  | .respond i t => s.respond i t
  | .close i => s.close i
  | .shutdown =>
    let listening :=
      match s.listening with
      | .accepting _ => .accepting true
      | other => other
    some { s with listening, connections := s.connections.map Connection.signal }
  | .pass ms => some { s with now := s.now + ms }

/-- What a sequence of actions leads to, if all of them are possible one after another. -/
def run (s : Server) (actions : List Action) : Option Server := actions.foldlM step s

end Server

end WireCall
