import WireCall.Message
import WireCall.Stream.Sink

/-!
# Writing messages

A writer puts each message into one frame, writes it and flushes. A message that cannot be encoded
leaves the stream alone. After a write that fails the stream is shut down, so that nothing can
follow a partial frame; a writer that is closed refuses every further message.
-/

namespace WireCall

/-- The writing half of a negotiated connection. -/
structure Writer where
  codec : Codec
  sink : Sink
  closed : Bool := false

namespace Writer

/-- Shuts the stream down, unless that has been done. -/
def close (w : Writer) : Except WireError Unit × Writer :=
  if w.closed then (.ok (), w)
  else
    match w.sink.shutdown with
    | (.ok (), s) => (.ok (), { w with sink := s, closed := true })
    | (.error e, s) => (.error (.io e), { w with sink := s, closed := true })

/-- Writes one frame. -/
def writeFrame (w : Writer) (frame : Bytes) : Except WireError Unit × Writer :=
  if w.closed then (.error .writerClosed, w)
  else
    match w.sink.send frame with
    | (.ok (), s) => (.ok (), { w with sink := s })
    | (.error e, s) => (.error (.io e), (close { w with sink := s }).2)

/-- Writes a header and a body that is already encoded. -/
def writeEncoded (w : Writer) (h : Header) (body : Bytes) : Except WireError Unit × Writer :=
  match Message.encodeRaw w.codec h body with
  | .error e => (.error e, w)
  | .ok frame => w.writeFrame frame

/-- Writes a header and a value. -/
def writeMessage (w : Writer) (h : Header) (d : Datum) : Except WireError Unit × Writer :=
  match Message.encode w.codec h d with
  | .error e => (.error e, w)
  | .ok frame => w.writeFrame frame

end Writer

end WireCall
