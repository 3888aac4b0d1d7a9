import WireCall.Header
import WireCall.Message.Reader
import WireCall.Registry

/-!
# Requests and the tasks that answer them

Every request that is read becomes a task of its own. The task makes the call, if there is one to
make, lets the handler sleep, and then has a response to write: the header of the request and the
encoded reply, or the header with the text of the failure and an encoded unit value.
-/

namespace WireCall

/-- A request: its header, and the call to make or the error to answer with. -/
structure Request where
  header : Header
  call : Except ServeError Prepared

namespace Request

/-- The request behind a header that has just been read. The body is used up in every case, so
that the next header starts clean. -/
def read (registry : Registry) (h : Header) (r : Reader) : Request × Reader :=
  match registry.lookup h.method with
  | .error e => (⟨h, .error e⟩, r.discardBody)
  | .ok _ =>
    match r.takeBody with
    | (.ok body, r) => (⟨h, registry.prepare r.codec h.method body⟩, r)
    | (.error e, r) => (⟨h, .error (.readArgument e)⟩, r)

end Request

/-- A response: its header and its encoded body. -/
structure Response where
  header : Header
  body : Bytes
  deriving DecidableEq

namespace Response

/-- The body of a response that reports a failure. -/
def unitBody (c : Codec) : Bytes :=
  match c.encode .unit () with
  | .ok b => b
  | .error _ => []

/-- The response to a request whose call has come to an end. -/
def make (c : Codec) (h : Header) : Except String Bytes → Response
  | .ok body => ⟨h, body⟩
  | .error why => ⟨h.withError why, unitBody c⟩

end Response

/-- How far the answer to a request has come. -/
inductive Task where
  /-- the call has not been made -/
  | waiting (r : Request)
  /-- the handler sleeps until the given time -/
  | sleeping (h : Header) (due : Nat) (result : Except String Bytes)
  /-- the response has not been written -/
  | responding (r : Response)
  | finished

namespace Task

/-- When a sleeping handler is due. -/
def due? : Task → Option Nat
  | .sleeping _ due _ => some due
  | _ => none

/-- Whether nothing is left to be done. -/
def isFinished : Task → Bool
  | .finished => true
  | _ => false

end Task

end WireCall
