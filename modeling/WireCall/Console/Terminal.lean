import WireCall.Console
import WireCall.Network.Schedule

/-!
# A terminal on a computed network

A host for the program in which everything is a value: the network with its server and clients, the
files, the lines to be typed in, and what has been printed. Time passes only while a reply is
waited for.
-/

namespace WireCall

namespace Console

/-- A terminal. -/
structure Terminal where
  network : Network
  files : String → Except IoError Bytes := fun _ => .error .noSuchFile
  /-- the lines that will be typed in -/
  input : List String := []
  /-- what has been printed -/
  output : String := ""

namespace Terminal

/-- Changes the network. -/
def onNetwork {α : Type} (f : Network → α × Network) : StateM Terminal α :=
  modifyGet fun t =>
    let (a, network) := f t.network
    (a, { t with network })

/-- Waits for a call of a client. One that can never be completed is given up. -/
def done (k n : Nat) (net : Network) : Except CallError Bytes × Network :=
  let after := net.awaitCall k n
  ((after.result? k n).getD (.error .shutdown), after)

/-- Waits until one of the given calls of a client is completed, unless none of them can be. -/
def first (k : Nat) (calls : List Nat) (net : Network) : Option (Fin calls.length) × Network :=
  let finished (net : Network) := do (← net.client? k).finished? calls
  let after := net.await fun net => (finished net).isSome
  (finished after, after)

/-- The use of a client of the network. -/
def session (k : Nat) : Session (StateM Terminal) where
  go method argument := onNetwork fun net => net.issue k method argument
  done n := onNetwork (done k n)
  first calls := onNetwork (first k calls)
  isAvailable := do return (← get).network.isAvailable k
  pendingCount := do
    match (← get).network.client? k with
    | some c => pure c.pendingCount
    | none => pure 0
  close := onNetwork fun net => net.close k

/-- The lines of a text. What stands behind the last line break is a line only if there is
something. -/
def linesOf (text : String) : List String :=
  let lines := text.splitOn "\n"
  if lines.getLast? = some "" then lines.dropLast else lines

/-- Hands over the given lines until no more are wanted. -/
def handOver (answer : String → StateM Terminal Bool) : List String → StateM Terminal Bool
  | [] => pure true
  | line :: rest => do
    if ← answer line then handOver answer rest else pure false

/-- The terminal as a host of the program. -/
def host : Host (StateM Terminal) where
  dial _ d := onNetwork fun net =>
    match net.connect d with
    | .ok (k, net) => (.ok (session k), net)
    | .error e => (.error e, net)
  readFile path := do return (← get).files path
  eachLine answer := do handOver answer (← get).input
  print text := modify fun t => { t with output := t.output ++ text }
  clock := do return (← get).network.server.now * 1000000

/-- Runs the program on a terminal. -/
def run (i : Invocation) (t : Terminal) : Exit × Terminal := (Console.run host i).run t

end Terminal

end Console

end WireCall
