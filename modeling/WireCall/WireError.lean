import WireCall.IoError
import WireCall.Json.Failure
import WireCall.Shape.Compact

/-!
# Errors of the wire protocol

Everything that can go wrong between the bytes of a connection and the messages they carry. An
error is *stream fatal* unless it concerns the content of a single message only; a clean end of
the stream between two messages is an error as well, the only one that is an end of input.
-/

namespace WireCall

/-- What can go wrong in negotiation, framing and the coding of messages. -/
inductive WireError where
  /-- a frame that does not start with the magic bytes -/
  | invalidMagic (found : Bytes)
  /-- a negotiation document with another magic number -/
  | invalidMagicNumber (found expected : Nat)
  | unsupportedCodec (name : String)
  | optionsTooLarge (max : Nat)
  | unsupportedVersion (version : UInt16)
  | frameTooLarge (size max : Nat)
  | crcMismatch (expected actual : UInt32)
  | invalidFlags (bits : UInt16)
  | noPendingBody
  | json (e : Json.Error)
  | compact (e : Compact.Error)
  | io (e : IoError)
  /-- the stream ended between two messages -/
  | connectionClosed
  /-- the stream ended inside a message -/
  | unexpectedEnd
  | writerClosed

namespace WireError

/-- A list of numbers in brackets. -/
def listText (b : Bytes) : String :=
  "[" ++ String.intercalate ", " (b.map fun x => toString x.toNat) ++ "]"

/-- The wording of an error. -/
def message : WireError → String
  | .invalidMagic found => "invalid frame magic: expected 'MRPC', got " ++ listText found
  | .invalidMagicNumber found expected =>
    "invalid magic number " ++ Bytes.hexText found ++ ", expected " ++ Bytes.hexText expected
  | .unsupportedCodec name => "unsupported codec type '" ++ name ++ "'"
  | .optionsTooLarge max =>
    "negotiation document too large (max " ++ toString max ++ " bytes)"
  | .unsupportedVersion version => "unsupported protocol version: " ++ toString version.toNat
  | .frameTooLarge size max =>
    "frame too large: " ++ toString size ++ " bytes (max " ++ toString max ++ ")"
  | .crcMismatch expected actual =>
    "CRC mismatch: expected " ++ Bytes.hexText expected.toNat ++ ", got "
      ++ Bytes.hexText actual.toNat
  | .invalidFlags bits => "invalid frame flags: " ++ Bytes.hexText bits.toNat
  | .noPendingBody => "no message body pending"
  | .json e => "JSON error: " ++ e.message
  | .compact e => "postcard error: " ++ e.message
  | .io e => "I/O error: " ++ e.message
  | .connectionClosed => "connection closed"
  | .unexpectedEnd => "unexpected end of stream inside a frame"
  | .writerClosed => "writer closed after a previous write failure"

/-- Whether the error is a clean end of the stream. -/
def isEnd : WireError → Bool
  | .connectionClosed => true
  | _ => false

/-- Whether the error leaves the stream unusable. -/
def isStreamFatal : WireError → Bool
  | .json _ | .compact _ | .noPendingBody => false
  | _ => true

end WireError

end WireCall
