import Std.Async.TCP
import WireCall.Address
import WireCall.IoError
import WireCall.Stream.Sink
import WireCall.Stream.Source

/-!
# Sockets

Where the bytes of a stream really come from and go to. A client and a server are values; what their
sinks take is sent over a socket afterwards, and what a socket receives is given to their sources.
-/

namespace WireCall

open Std.Async

/-- One end of a connection of the system. -/
abbrev Socket := TCP.Socket.Client

namespace Socket

/-! ## Errors and addresses -/

/-- The number of an error of the system. -/
def errorNumber? : IO.Error → Option UInt32
  | .otherError n _ | .resourceBusy n _ | .resourceVanished n _ | .unsupportedOperation n _
  | .hardwareFault n _ | .unsatisfiedConstraints n _ | .illegalOperation n _
  | .protocolError n _ | .timeExpired n _ | .alreadyExists _ n _ | .interrupted _ n _
  | .noFileOrDirectory _ n _ | .invalidArgument _ n _ | .permissionDenied _ n _
  | .resourceExhausted _ n _ | .inappropriateType _ n _ | .noSuchThing _ n _ => some n
  | .unexpectedEof | .userError _ => none

/-- What the system says about some of its errors. -/
def reasons : List (Nat × String) :=
  [(13, "Permission denied"), (21, "Is a directory"), (32, "Broken pipe"),
    (98, "Address already in use"), (99, "Cannot assign requested address"),
    (104, "Connection reset by peer"), (110, "Connection timed out"), (113, "No route to host")]

/-- An error of the system. The network counts its numbers downwards from zero. -/
def ioError (e : IO.Error) : IoError :=
  match errorNumber? e with
  | none => .system 0 (toString e)
  | some n =>
    match if n.toNat < 0x80000000 then n.toNat else 0x100000000 - n.toNat with
    | 2 => .noSuchFile
    | 101 => .networkUnreachable
    | 111 => .connectionRefused
    | number =>
      .system number ((reasons.find? fun r => r.1 = number).elim (toString e) Prod.snd)

/-- An address as the system takes it. -/
def systemAddress : Address → Std.Net.SocketAddress
  | .v4 octets port =>
    let octet (i : Nat) : UInt8 := UInt8.ofNat (octets.getD i 0)
    .v4 ⟨.ofParts (octet 0) (octet 1) (octet 2) (octet 3), UInt16.ofNat port⟩
  | .v6 groups _ port =>
    .v6 ⟨⟨.ofFn fun i : Fin 8 => UInt16.ofNat (groups.getD i 0)⟩, UInt16.ofNat port⟩

/-- An address as the system gives it. -/
def ofSystemAddress : Std.Net.SocketAddress → Address
  | .v4 a => .v4 (a.addr.octets.toList.map UInt8.toNat) a.port.toNat
  | .v6 a => .v6 (a.addr.segments.toList.map UInt16.toNat) 0 a.port.toNat

/-! ## Bytes -/

/-- The most bytes that are received at once. -/
def receiveSize : UInt64 := 8192

/-- What is received from a socket. -/
inductive Received where
  | bytes (b : Bytes)
  /-- the end of the stream -/
  | ending (e : Ending)

/-- Receives some bytes or the end of the stream. -/
def receive (s : Socket) : Async Received := do
  try
    match ← s.recv? receiveSize with
    | some b => pure (.bytes b.data.toList)
    | none => pure (.ending .finished)
  catch e => pure (.ending (.failed (ioError e)))

/-- An outlet sends what a sink takes. -/
structure Outlet where
  socket : Socket
  /-- how many bytes of the sink have been sent -/
  sent : Nat := 0
  ended : Bool := false

/-- Sends what a sink has taken and has not been sent, and ends the stream if the sink has been shut
down or nothing more will come. -/
def Outlet.follow (o : Outlet) (sink : Sink) (isOver : Bool) : IO Outlet := do
  if o.ended then return o
  if o.sent < sink.count then
    (o.socket.send ⟨(sink.taken.drop o.sent).toArray⟩).block
  if isOver || 0 < sink.shutdowns then
    o.socket.shutdown.block
    return { o with sent := sink.count, ended := true }
  return { o with sent := sink.count }

end Socket

end WireCall
