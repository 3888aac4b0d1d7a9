import WireCall.Client
import WireCall.Client.Dialing
import WireCall.Server

/-!
# A server and its clients

A network joins one server and any number of clients. Each client has a *line* to the server, which
carries the bytes of both sides in their order and loses none; how many it carries at a time, and
when, is open. The end of a stream comes behind all of its bytes.

As for the server and the client, `Network.step` says for each action whether it is possible now
and what it leads to. A client and the server take their own steps (`Client.Action.isOwn`,
`Server.Action.isOwn`); what arrives at one of them comes over a line.
-/

namespace WireCall

/-- Whether a client takes the step by itself; otherwise something arrives at it. -/
def Client.Action.isOwn : Client.Action → Bool
  | .receive _ | .hangUp _ => false
  | _ => true

/-- Whether the server takes the step by itself; otherwise something arrives at it. -/
def Server.Action.isOwn : Server.Action → Bool
  | .arrive _ | .handOver _ | .receive _ _ | .hangUp _ _ => false
  | _ => true

/-- A client with its line to the server. -/
structure Line where
  client : Client
  /-- the number of the connection on the server -/
  connection : Nat
  /-- how many bytes of the client have reached the server -/
  up : Nat := 0
  /-- how many bytes of the server have reached the client -/
  down : Nat := 0

/-- A server and its clients. -/
structure Network where
  server : Server
  lines : List Line := []
  /-- why the server cannot be reached, if it cannot -/
  outage : Option IoError := none

/-- The single steps of a network. Lines are named by their numbers. -/
inductive Network.Action where
  /-- a client connects to the server and sends its options -/
  | dial (d : Dialing)
  /-- a client takes a step by itself -/
  | client (k : Nat) (a : Client.Action)
  /-- the server takes a step by itself -/
  | server (a : Server.Action)
  /-- the next bytes of a client reach the server, at most so many -/
  | carryUp (k most : Nat)
  /-- the next bytes of the server reach a client, at most so many -/
  | carryDown (k most : Nat)
  /-- the end of a client's stream reaches the server -/
  | endUp (k : Nat)
  /-- the end of the server's stream reaches a client -/
  | endDown (k : Nat)

namespace Line

/-- The bytes of the client that have not reached the server. -/
def underwayUp (l : Line) : Bytes := l.client.writer.sink.taken.drop l.up

/-- Whether the client has ended its stream. -/
def isEndedUp (l : Line) : Bool := 0 < l.client.writer.sink.shutdowns

end Line

namespace Network

/-- The server's end of a line. -/
def connection? (net : Network) (l : Line) : Option Connection :=
  net.server.connections[l.connection]?

/-- The bytes of the server that have not reached the client. -/
def underwayDown (net : Network) (l : Line) : Bytes :=
  match (net.connection? l).bind Connection.sink? with
  | some sink => sink.taken.drop l.down
  | none => []

/-- Whether the server has ended its stream. -/
def isEndedDown (net : Network) (l : Line) : Bool :=
  match net.connection? l with
  | some c => c.isOver
  | none => false

/-- The network with one line replaced. -/
def setLine (net : Network) (k : Nat) (l : Line) : Network :=
  { net with lines := net.lines.set k l }

/-- Connects a client to the server. -/
def dial (net : Network) (d : Dialing) : Except CallError Network :=
  match net.outage with
  | some e => .error (.io e)
  | none =>
    if net.server.isRunning then do
      let client ← (Client.connect d.options {} { behaviour := .faithful }).1
      let connection := Connection.arrived {} { behaviour := .faithful }
      pure { net with
        server := { net.server with connections := net.server.connections ++ [connection] }
        lines := net.lines ++ [{ client, connection := net.server.connections.length }] }
    else .error (.io .connectionRefused)

/-- Brings the next bytes of a client to the server. -/
def carryUp (net : Network) (k most : Nat) : Option Network := do
  let l ← net.lines[k]?
  let piece := l.underwayUp.take most
  let server ← net.server.step (.receive l.connection piece)
  pure ({ net with server }.setLine k { l with up := l.up + piece.length })

/-- Brings the next bytes of the server to a client. -/
def carryDown (net : Network) (k most : Nat) : Option Network := do
  let l ← net.lines[k]?
  let piece := (net.underwayDown l).take most
  let client ← l.client.step (.receive piece)
  pure (net.setLine k { l with client, down := l.down + piece.length })

/-- Tells the server that a client has ended its stream. -/
def endUp (net : Network) (k : Nat) : Option Network := do
  let l ← net.lines[k]?
  if l.isEndedUp ∧ l.underwayUp = [] then
    let server ← net.server.step (.hangUp l.connection .finished)
    pure { net with server }
  else none

/-- Tells a client that the server has ended its stream. -/
def endDown (net : Network) (k : Nat) : Option Network := do
  let l ← net.lines[k]?
  if net.isEndedDown l ∧ net.underwayDown l = [] then
    let client ← l.client.step (.hangUp .finished)
    pure (net.setLine k { l with client })
  else none

/-- What an action leads to, if it is possible. -/
def step (net : Network) : Action → Option Network
  | .dial d => (net.dial d).toOption
  | .client k a => do
    let l ← net.lines[k]?
    if a.isOwn then
      let client ← l.client.step a
      pure (net.setLine k { l with client })
    else none
  | .server a => do
    if a.isOwn then
      let server ← net.server.step a
      pure { net with server }
    else none
  | .carryUp k most => net.carryUp k most
  | .carryDown k most => net.carryDown k most
  | .endUp k => net.endUp k
  | .endDown k => net.endDown k

/-- What a sequence of actions leads to, if all of them are possible one after another. -/
def run (net : Network) (actions : List Action) : Option Network := actions.foldlM step net

end Network

end WireCall
