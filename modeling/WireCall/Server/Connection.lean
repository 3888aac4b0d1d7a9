import WireCall.Message.Writer
import WireCall.Server.Task

/-!
# The connections of a server

A connection is first negotiated and then served. While it is served, requests are read one after
another and each is answered by a task; reading stops at the end of the stream, at a frame or a
header that is no good, when a response could not be written, and when the server shuts down. The
connection is closed when all its tasks are finished.
-/

namespace WireCall

/-- A connection that is being served, or has been. -/
structure Serving where
  reader : Reader
  writer : Writer
  /-- the tasks in the order of their requests; a finished one keeps its place -/
  tasks : List Task := []
  /-- whether further requests are read -/
  reading : Bool := true
  /-- a response could not be written, and reading has not stopped for it -/
  writeFailed : Bool := false
  /-- the server shuts down, and reading has not stopped for it -/
  signalled : Bool := false

/-- How far a connection has come. -/
inductive Connection where
  /-- the client waits at the listener -/
  | arrived (source : Source) (sink : Sink)
  /-- the listener has handed the connection over -/
  | accepted (source : Source) (sink : Sink)
  /-- there were too many connections already -/
  | turnedAway
  /-- the options have not been read; what of them has arrived, and when the time is over -/
  | negotiating (buffer : Bytes) (deadline : Nat) (source : Source) (sink : Sink)
  | serving (c : Serving)
  /-- the negotiation has failed -/
  | refused (e : ServeError) (sink : Sink)
  /-- everything is answered and the stream is shut down -/
  | served (c : Serving)

namespace Connection

/-- What the connection has written. -/
def sink? : Connection → Option Sink
  | .arrived _ sink | .accepted _ sink | .negotiating _ _ _ sink | .refused _ sink => some sink
  | .serving c | .served c => some c.writer.sink
  | .turnedAway => none

/-- The connection after a change of what arrives. -/
def mapSource (f : Source → Source) : Connection → Connection
  | .arrived source sink => .arrived (f source) sink
  | .accepted source sink => .accepted (f source) sink
  | .negotiating buffer deadline source sink => .negotiating buffer deadline (f source) sink
  | .serving c => .serving { c with reader := { c.reader with source := f c.reader.source } }
  | other => other

/-- The shutdown of the server reaches only a connection that is being served. -/
def signal : Connection → Connection
  | .serving c => .serving { c with signalled := true }
  | other => other

/-- When something happens by itself: the end of the time for negotiation, and the ends of the
handlers' sleep. -/
def dueTimes : Connection → List Nat
  | .negotiating _ deadline _ _ => [deadline]
  | .serving c => c.tasks.filterMap Task.due?
  | _ => []

/-- Whether the server has let the connection go. -/
def isOver : Connection → Bool
  | .turnedAway | .refused _ _ | .served _ => true
  | _ => false

/-- How the serving of the connection ended, if it has. -/
def result? : Connection → Option (Except ServeError Unit)
  | .refused e _ => some (.error e)
  | .served _ => some (.ok ())
  | _ => none

end Connection

end WireCall
