import WireCall.Options
import WireCall.Stream.Sink
import WireCall.Stream.Source

/-!
# Negotiation

The client sends its options as one line. The server reads until it has seen the end of the line
and keeps what it has read beyond it, which belongs to the messages. It gives up when it has read
`Options.maxDocument` bytes or more without an end of line; as it reads in steps, how much it then
holds depends on the pieces in which the bytes arrived.
-/

namespace WireCall

namespace Negotiation

/-- How many bytes one read of the server asks for. -/
def readSize : Nat := 512

/-- Sends the options. -/
def send (o : Options) (s : Sink) : Except WireError Unit × Sink :=
  match o.toLine with
  | .error e => (.error e, s)
  | .ok line =>
    match s.send line with
    | (.ok (), s) => (.ok (), s)
    | (.error e, s) => (.error (.io e), s)

/-- What the bytes read so far amount to. -/
inductive Verdict where
  /-- the end of the line is not there yet -/
  | more
  | agreed (o : Options) (rest : Bytes)
  | refused (e : WireError)

/-- Judges the bytes read so far. -/
def judge (buffer : Bytes) : Verdict :=
  match buffer.span (· ≠ 0x0a) with
  | (_, []) =>
    if buffer.length ≥ Options.maxDocument then .refused (.optionsTooLarge Options.maxDocument)
    else .more
  | (line, _ :: rest) =>
    match Options.ofDocument line with
    | .ok o => .agreed o rest
    | .error e => .refused e

/-- The error of a stream that ends where more bytes were needed. -/
def endError (buffer : Bytes) : Ending → WireError
  | .failed e => .io e
  | .finished => if buffer.isEmpty then .connectionClosed else .unexpectedEnd

/-- How the negotiation stands. -/
inductive Outcome where
  /-- more bytes have to arrive -/
  | waits (buffer : Bytes)
  /-- the options and the bytes read beyond them -/
  | agreed (o : Options) (rest : Bytes)
  | refused (e : WireError)

/-- Reads on until the options are known, the negotiation fails or nothing more has arrived. -/
def receive (buffer : Bytes) (s : Source) : Outcome × Source :=
  match judge buffer with
  | .agreed o rest => (.agreed o rest, s)
  | .refused e => (.refused e, s)
  | .more =>
    match h : s.read readSize with
    | (.bytes b, s') =>
      have := Source.length_unread_lt (by decide) h
      receive (buffer ++ b) s'
    | (.ended e, s') => (.refused (endError buffer e), s')
    | (.waits, s') => (.waits buffer, s')
termination_by s.unread.length

end Negotiation

end WireCall
