import WireCall.Decoder
import WireCall.Header
import WireCall.Negotiation

/-!
# Reading messages

A reader takes one frame after another from a stream and decodes its header. The body stays pending
until it is taken, decoded or discarded; reading the next header discards it too. Where not enough
bytes have arrived the reader waits and keeps what it has.
-/

namespace WireCall

/-- The reading half of a negotiated connection. -/
structure Reader where
  codec : Codec
  source : Source
  decoder : Decoder := {}
  /-- the body behind the last header, unless it has been used -/
  pending : Option Bytes := none

/-- The outcome of an operation that may have to wait for bytes. -/
inductive Reading (α : Type) where
  | got (a : α)
  | failed (e : WireError)
  | waits

namespace Reader

/-- How many bytes one read asks for. -/
def readSize : Nat := 8192

/-- A reader that starts with the bytes read beyond the negotiation. -/
def make (c : Codec) (buffered : Bytes) (s : Source) : Reader := ⟨c, s, ⟨buffered⟩, none⟩

/-- Takes the next frame from the bytes that have arrived. -/
def takeFrame (d : Decoder) (s : Source) : Reading Frame × Decoder × Source :=
  match d.next with
  | (.ok (some f), d) => (.got f, d, s)
  | (.error e, d) => (.failed e, d, s)
  | (.ok none, d) =>
    match h : s.read readSize with
    | (.bytes b, s') =>
      have := Source.length_unread_lt (by decide) h
      takeFrame (d.extend b) s'
    | (.ended e, s') => (.failed (Negotiation.endError d.buffer e), d, s')
    | (.waits, s') => (.waits, d, s')
termination_by s.unread.length

/-- Reads the next frame and decodes its header. -/
def readHeader (r : Reader) : Reading Header × Reader :=
  match takeFrame r.decoder r.source with
  | (.waits, d, s) => (.waits, { r with decoder := d, source := s, pending := none })
  | (.failed e, d, s) => (.failed e, { r with decoder := d, source := s, pending := none })
  | (.got f, d, s) =>
    match Header.decode r.codec f.header with
    | .error e => (.failed e, { r with decoder := d, source := s, pending := none })
    | .ok h => (.got h, { r with decoder := d, source := s, pending := some f.body })

/-- Takes the pending body as it is. -/
def takeBody (r : Reader) : Except WireError Bytes × Reader :=
  match r.pending with
  | some b => (.ok b, { r with pending := none })
  | none => (.error .noPendingBody, r)

/-- Takes the pending body and decodes it. -/
def readBody (r : Reader) (s : Shape) : Except WireError s.Value × Reader :=
  match r.takeBody with
  | (.ok b, r) => (r.codec.decode s b, r)
  | (.error e, r) => (.error e, r)

/-- Drops the pending body. -/
def discardBody (r : Reader) : Reader := { r with pending := none }

/-- A piece of the stream arrives. -/
def arrive (r : Reader) (b : Bytes) : Reader := { r with source := r.source.arrive b }

/-- The end of the stream arrives. -/
def finish (r : Reader) (e : Ending) : Reader := { r with source := r.source.finish e }

end Reader

end WireCall
