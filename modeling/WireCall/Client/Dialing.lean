import WireCall.Options

/-!
# Opening a connection

What a client asks for when it opens a connection, and how long it waits for it to open.
-/

namespace WireCall

/-- How a connection is opened. -/
structure Dialing where
  options : Options := .default
  /-- in milliseconds -/
  timeout : Nat := 10000
  deriving DecidableEq

namespace Dialing

/-- The same with another codec; a magic number that was chosen stays. -/
def withCodec (d : Dialing) (codec : Codec) : Dialing :=
  { d with options := { d.options with codec } }

/-- The same with other options. -/
def withOptions (d : Dialing) (options : Options) : Dialing := { d with options }

/-- The same with another time to wait. -/
def withTimeout (d : Dialing) (timeout : Nat) : Dialing := { d with timeout }

end Dialing

end WireCall
