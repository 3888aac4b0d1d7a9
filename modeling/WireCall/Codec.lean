import WireCall.WireError
import WireCall.Shape.JsonForm

/-!
# Codecs

A connection uses one of two encodings for all its headers and bodies, the compact one or JSON.
Each is known by the identifier under which it is negotiated.
-/

namespace WireCall

/-- The encoding of the messages of a connection. -/
inductive Codec where
  | compact
  | json
  deriving DecidableEq, Repr, Inhabited

namespace Codec

/-- All codecs, the one used by default first. -/
def all : List Codec := [.compact, .json]

/-- The codec that is used where none is asked for. -/
def default : Codec := .compact

/-- The identifier under which the codec is negotiated. -/
def identifier : Codec → String
  | .compact => "application/postcard"
  | .json => "application/json"

/-- The name of the codec by itself. -/
def label : Codec → String
  | .compact => "Postcard"
  | .json => "Json"

/-- The codec with the given identifier. -/
def ofIdentifier (name : String) : Except WireError Codec :=
  match all.find? fun c => c.identifier = name with
  | some c => .ok c
  | none => .error (.unsupportedCodec name)

/-- Codecs are themselves values that can travel, by their identifiers. -/
def shape : Shape := .choice "application/postcard" ["application/json"]

/-- Writes a value. -/
def encode (c : Codec) (s : Shape) (v : s.Value) : Except WireError Bytes :=
  match c with
  | .compact => (Compact.write s v).mapError .compact
  | .json => (JsonForm.encode s v).mapError .json

/-- Reads a value. -/
def decode (c : Codec) (s : Shape) (b : Bytes) : Except WireError s.Value :=
  match c with
  | .compact => (Compact.decode s b).mapError .compact
  | .json => (JsonForm.decode s b).mapError .json

end Codec

end WireCall
