import WireCall.CallError
import WireCall.Client.Dialing
import WireCall.Console.Arguments
import WireCall.Shape

/-!
# What the program runs on

The program connects to a server, makes calls on the connection, reads files, takes the lines that
are typed in, and prints. How these things are done is left to a *host*: the program is the same on
a real network and on one that is only computed.
-/

namespace WireCall

namespace Console

/-- A connection that the program uses. Calls are named by the numbers that the connection gives
them. -/
structure Session (m : Type → Type) where
  /-- issues a call and gives its number -/
  go : (method : String) → Datum → m Nat
  /-- waits for a call and gives its encoded reply -/
  done : (call : Nat) → m (Except CallError Bytes)
  /-- waits until one of the given calls is completed and gives its place among them; nothing is
  given if there are none, or if they are waited for no longer -/
  first : (calls : List Nat) → m (Option (Fin calls.length))
  /-- whether further calls can be issued -/
  isAvailable : m Bool
  /-- how many calls wait for a response -/
  pendingCount : m Nat
  close : m (Except CallError Unit)

/-- Makes a call and waits for its encoded reply. -/
def Session.call {m : Type → Type} [Monad m] (s : Session m) (method : String) (argument : Datum) :
    m (Except CallError Bytes) := do
  s.done (← s.go method argument)

/-- What the program runs on. -/
structure Host (m : Type → Type) where
  dial : Address → Dialing → m (Except CallError (Session m))
  readFile : (path : String) → m (Except IoError Bytes)
  /-- hands over the lines that are typed in, one after another, until the answer is that no more
  are wanted; whether all lines have been handed over -/
  eachLine : (String → m Bool) → m Bool
  print : String → m Unit
  /-- the time in nanoseconds -/
  clock : m Nat

end Console

end WireCall
