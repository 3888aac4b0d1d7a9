import WireCall.Codec

/-!
# Negotiation options

A connection opens with one line of JSON from the client: a magic number and the identifier of the
codec that all messages will use. The server refuses another magic number and an unknown codec.
-/

namespace WireCall

/-- What the client asks for when a connection opens. -/
structure Options where
  magic : UInt64
  codec : Codec
  deriving DecidableEq

namespace Options

/-- The number that marks a connection of this protocol. -/
def magicNumber : UInt64 := 0x3bef5c

/-- The longest document, with its line end, that is waited for. -/
def maxDocument : Nat := 4096

/-- The options for a codec. -/
def forCodec (c : Codec) : Options := ⟨magicNumber, c⟩

/-- The options that are used where none are given. -/
def default : Options := forCodec Codec.default

/-- The fields of the document. The codec is a text here, so that an unknown identifier is told
apart from a document that cannot be read. -/
def shape : Shape :=
  .record "OptionsDocument"
    (.field "MagicNumber" .required (.natural .w64)
      (.field "CodecType" .required .text .done))

/-- The document without its line end. -/
def document (o : Options) : Except WireError Bytes :=
  Codec.json.encode shape ((o.magic.toBitVec, o.codec.identifier, ()) : BitVec 64 × String × Unit)

/-- The document as a line. -/
def toLine (o : Options) : Except WireError Bytes := do
  let b ← o.document
  pure (b ++ [0x0a])

/-- The magic number and the codec identifier in a document. -/
def fields (v : shape.Value) : UInt64 × String :=
  let (magic, name, _) : BitVec 64 × String × Unit := v
  (UInt64.ofBitVec magic, name)

/-- The options that a document asks for. -/
def ofDocument (b : Bytes) : Except WireError Options := do
  let v ← Codec.json.decode shape b
  let (magic, name) := fields v
  if magic = magicNumber then
    let codec ← Codec.ofIdentifier name
    pure ⟨magic, codec⟩
  else throw (.invalidMagicNumber magic.toNat magicNumber.toNat)

end Options

end WireCall
