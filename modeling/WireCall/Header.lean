import WireCall.Codec

/-!
# Message headers

A header stands in front of every body. In a request it names the method that is called and the
number of the call; the response repeats both, and a text in its error field says that the call
failed, in which case the body means nothing.
-/

namespace WireCall

/-- The header of a message. -/
structure Header where
  /-- the service and the method, with a dot between them -/
  method : String
  /-- the number of the call -/
  seq : UInt64
  /-- why the call failed; empty if it did not -/
  error : String := ""
  deriving DecidableEq, Inhabited

namespace Header

/-- The same header with an error. -/
def withError (h : Header) (error : String) : Header := { h with error }

/-- Whether the header reports a failure. -/
def isError (h : Header) : Bool := !h.error.isEmpty

/-- The header with all fields blank. -/
def blank : Header := ⟨"", 0, ""⟩

/-! ## Coding -/

/-- The fields of a header, as they are named on the wire. The error may be left out. -/
def shape : Shape :=
  .record "Header"
    (.field "ServiceMethod" .required .text
      (.field "Seq" .required (.natural .w64)
        (.field "Error" .blankIfMissing .text .done)))

/-- A header as a value of its shape. -/
def toValue (h : Header) : shape.Value := (h.method, h.seq.toBitVec, h.error, ())

/-- The header that a value of the shape stands for. -/
def ofValue (v : shape.Value) : Header :=
  let (method, seq, error, _) : String × BitVec 64 × String × Unit := v
  ⟨method, UInt64.ofBitVec seq, error⟩

/-- The bytes of a header. -/
def encode (c : Codec) (h : Header) : Except WireError Bytes := c.encode shape h.toValue

/-- The header that some bytes spell. -/
def decode (c : Codec) (b : Bytes) : Except WireError Header := do
  let v ← c.decode shape b
  pure (ofValue v)

end Header

end WireCall
