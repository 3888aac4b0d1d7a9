import WireCall.Frame
import WireCall.Header

/-!
# Messages

A message is a header and a body, coded with the codec of the connection and put into one frame.
-/

namespace WireCall

namespace Message

/-- The bytes of a header and a body that is already encoded. -/
def encodeRaw (c : Codec) (h : Header) (body : Bytes) : Except WireError Bytes := do
  let header ← h.encode c
  (Frame.make header body).encode

/-- The bytes of a header and a value as its body. -/
def encode (c : Codec) (h : Header) (d : Datum) : Except WireError Bytes := do
  let body ← c.encode d.shape d.value
  encodeRaw c h body

end Message

end WireCall
