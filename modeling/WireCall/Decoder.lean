import WireCall.Frame

/-!
# Taking frames from a stream

A decoder collects the bytes of a stream as they arrive, in pieces of any size, and gives the
frames in them one after another.
-/

namespace WireCall

/-- The bytes that have arrived and belong to no frame yet. -/
structure Decoder where
  buffer : Bytes := []

namespace Decoder

/-- Adds bytes that have arrived. -/
def extend (d : Decoder) (b : Bytes) : Decoder := ⟨d.buffer ++ b⟩

/-- Takes the next frame, if it is complete. -/
def next (d : Decoder) : Except WireError (Option Frame) × Decoder :=
  let (result, rest) := Frame.decode d.buffer
  (result, ⟨rest⟩)

/-- How many bytes belong to no frame yet. -/
def buffered (d : Decoder) : Nat := d.buffer.length

/-- Forgets all bytes. -/
def clear (_ : Decoder) : Decoder := ⟨[]⟩

end Decoder

end WireCall
