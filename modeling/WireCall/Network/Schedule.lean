import WireCall.Client.Schedule
import WireCall.Network
import WireCall.Server.Schedule

/-!
# A schedule for a network

What a network does between two events from outside, in one order of its steps: whatever a client
has written reaches the server at once, and the other way round. Time passes only where something is
waited for, and then goes to the next moment at which the server has something to do.
-/

namespace WireCall

namespace Network

/-- Takes a step if it is possible. -/
def attempt (net : Network) (a : Action) : Network := (net.step a).getD net

/-- Takes the steps that are possible, one after another. -/
def attemptAll (net : Network) (actions : List Action) : Network := actions.foldl attempt net

/-- The client of a line after a change. -/
def onClient (net : Network) (k : Nat) (f : Client → Client) : Network :=
  { net with lines := net.lines.modify k fun l => { l with client := f l.client } }

/-- The server after a change. -/
def onServer (net : Network) (f : Server → Server) : Network := { net with server := f net.server }

/-- The client of a line. -/
def client? (net : Network) (k : Nat) : Option Client := net.lines[k]?.map Line.client

/-- Brings everything that a client has written to the server. -/
def deliverUp (net : Network) (k : Nat) : Network :=
  match net.lines[k]? with
  | some l => net.attemptAll [.carryUp k l.underwayUp.length, .endUp k]
  | none => net

/-- Brings everything that the server has written to a client, and lets the client come to rest. -/
def deliverDown (net : Network) (k : Nat) : Network :=
  match net.lines[k]? with
  | some l =>
    (net.attemptAll [.carryDown k (net.underwayDown l).length, .endDown k]).onClient k Client.settle
  | none => net

/-- Brings everything to the server, and its answers to the clients. -/
def exchange (net : Network) : Network :=
  let numbers := List.range net.lines.length
  numbers.foldl deliverDown ((numbers.foldl deliverUp net).onServer Server.settle)

/-- Does everything that needs no time to pass. A client does not answer a response by another
request; all it can do is end its stream, so that nothing is left to do after two exchanges. -/
def settle (net : Network) : Network := net.exchange.exchange

/-- Lets time pass until the next moment at which the server has something to do, if there is
one. -/
def passOn (net : Network) : Option Network :=
  net.server.nextDue?.map fun due => (net.onServer (·.passUntil due)).settle

/-- Lets time pass until something is the case, or nothing more can happen. -/
def passUntil (goal : Network → Bool) : (fuel : Nat) → Network → Network
  | 0, net => net
  | fuel + 1, net =>
    if goal net then net
    else
      match net.passOn with
      | some later => passUntil goal fuel later
      | none => net

/-- Waits until something is the case. Every moment at which the server has something to do is
passed once, and between two events from outside no new one arises. -/
def await (net : Network) (goal : Network → Bool) : Network :=
  passUntil goal (net.server.dueTimes.length + 1) net

/-! ## What a client is used for -/

/-- Connects a client to the server and gives its number. -/
def connect (net : Network) (d : Dialing) : Except CallError (Nat × Network) := do
  let after ← net.dial d
  pure (net.lines.length, after.settle)

/-- Connects a peer that is no client, sends the given bytes and then waits; whether the server lets
it go. -/
def visit (net : Network) (bytes : Bytes) : Except IoError (Bool × Network) :=
  match net.outage with
  | some e => .error e
  | none =>
    let i := net.server.connections.length
    let arrived := net.onServer fun s =>
      (s.act (.arrive { behaviour := .faithful })).act (.receive i bytes)
    let isOver (net : Network) : Bool :=
      match net.server.connections[i]? with
      | some c => c.isOver
      | none => false
    let after := arrived.settle.await isOver
    .ok (isOver after, after)

/-- Issues a call on a client and gives its number. -/
def issue (net : Network) (k : Nat) (method : String) (argument : Datum) : Nat × Network :=
  let n := ((net.client? k).map fun c => c.calls.length).getD 0
  (n, (net.onClient k (·.go method argument)).settle)

/-- How a call was completed, if it has been. -/
def result? (net : Network) (k n : Nat) : Option (Except CallError Bytes) := do
  let c ← net.client? k
  c.result? n

/-- Waits until a call is completed. -/
def awaitCall (net : Network) (k n : Nat) : Network := net.await fun net => (net.result? k n).isSome

/-- Whether calls can still be issued on a client. -/
def isAvailable (net : Network) (k : Nat) : Bool :=
  match net.client? k with
  | some c => c.isAvailable
  | none => false

/-- Closes a client and gives the result. -/
def close (net : Network) (k : Nat) : Except CallError Unit × Network :=
  let after := net.onClient k Client.shutDown
  let result := (after.client? k).bind fun c => c.closes.getLast?
  (result.getD (.error .alreadyShutdown), after.settle)

end Network

end WireCall
