import WireCall.Double.Shortest
import WireCall.Text.Quoted

/-!
# Why a JSON text cannot be read

A failure has a cause and the place in the text where it is noticed, given as the bytes that are
left there. Failures of the text itself (`Cause`) are placed by the reader that finds them. A
misfit between a well-formed text and the shape that is wanted of it (`Misfit`) is placed by the
value that contains it, once the end of that value has been looked at; until then it is not
*settled*.

`Json.Failure.position` turns the place into a line and a column, and `Json.Error.message` gives
the wording.
-/

namespace WireCall

namespace Json

/-- What was found where something else was wanted. -/
inductive Found where
  /-- the literal `null` -/
  | null
  | bool (b : Bool)
  | integer (i : Int)
  | double (x : Double)
  | text (s : String)
  | sequence
  | map

/-- A well-formed text that does not have the wanted shape. -/
inductive Misfit where
  /-- a value of another kind -/
  | kind (found : Found) (wanted : String)
  /-- a value of the right kind that is out of range -/
  | value (found : Found) (wanted : String)
  /-- too few elements -/
  | length (n : Nat) (wanted : String)
  | missingField (name : String)
  | duplicateField (name : String)
  /-- a name that is not one of the choices -/
  | unknownChoice (name : String) (choices : List String)
  /-- a value that has no written form -/
  | unwritable (why : String)

/-- What keeps a JSON text from being read. -/
inductive Cause where
  | endInList
  | endInObject
  | endInText
  | endInValue
  | expectedColon
  | expectedListCommaOrEnd
  | expectedObjectCommaOrEnd
  | expectedIdent
  | expectedValue
  | invalidEscape
  | invalidNumber
  | numberOutOfRange
  | invalidUnicode
  | controlCharacter
  | keyMustBeText
  | loneSurrogate
  | trailingComma
  | trailingCharacters
  | endOfHexEscape
  | recursionLimit
  | misfit (m : Misfit)

/-- A cause and the bytes that are left where it is noticed. -/
structure Failure where
  cause : Cause
  rest : Bytes
  /-- whether `rest` is the place to report -/
  settled : Bool := true

/-! ## Wording -/

/-- The name of what was found. -/
def Found.describe : Found → String
  | .null => "null"
  | .bool b => "boolean `" ++ (if b then "true" else "false") ++ "`"
  | .integer i => "integer `" ++ toString i ++ "`"
  | .double x => "floating point `" ++ String.ofList x.decimalText ++ "`"
  | .text s => "string " ++ Text.quoted s
  | .sequence => "sequence"
  | .map => "map"

/-- The choices as they are listed in a message. -/
def listChoices : List String → String
  | [] => "no choices"
  | [a] => "`" ++ a ++ "`"
  | [a, b] => "`" ++ a ++ "` or `" ++ b ++ "`"
  | names => "one of " ++ String.intercalate ", " (names.map fun a => "`" ++ a ++ "`")

/-- The wording of a misfit. -/
def Misfit.message : Misfit → String
  | .kind found wanted => "invalid type: " ++ found.describe ++ ", expected " ++ wanted
  | .value found wanted => "invalid value: " ++ found.describe ++ ", expected " ++ wanted
  | .length n wanted => "invalid length " ++ toString n ++ ", expected " ++ wanted
  | .missingField name => "missing field `" ++ name ++ "`"
  | .duplicateField name => "duplicate field `" ++ name ++ "`"
  | .unknownChoice name choices =>
    "unknown variant `" ++ name ++ "`, expected " ++ listChoices choices
  | .unwritable why => why

/-- The wording of a cause. -/
def Cause.message : Cause → String
  | .endInList => "EOF while parsing a list"
  | .endInObject => "EOF while parsing an object"
  | .endInText => "EOF while parsing a string"
  | .endInValue => "EOF while parsing a value"
  | .expectedColon => "expected `:`"
  | .expectedListCommaOrEnd => "expected `,` or `]`"
  | .expectedObjectCommaOrEnd => "expected `,` or `\x7d`"
  | .expectedIdent => "expected ident"
  | .expectedValue => "expected value"
  | .invalidEscape => "invalid escape"
  | .invalidNumber => "invalid number"
  | .numberOutOfRange => "number out of range"
  | .invalidUnicode => "invalid unicode code point"
  | .controlCharacter => "control character (\\u0000-\\u001F) found while parsing a string"
  | .keyMustBeText => "key must be a string"
  | .loneSurrogate => "lone leading surrogate in hex escape"
  | .trailingComma => "trailing comma"
  | .trailingCharacters => "trailing characters"
  | .endOfHexEscape => "unexpected end of hex escape"
  | .recursionLimit => "recursion limit exceeded"
  | .misfit m => m.message

/-- A place in a text: the line, counted from one, and the number of bytes before the place in its
line. -/
structure Position where
  line : Nat
  column : Nat
  deriving DecidableEq, Repr

/-- The position after the given bytes. -/
def Position.after (b : Bytes) : Position :=
  b.foldl (fun p c => if c = 10 then ⟨p.line + 1, 0⟩ else ⟨p.line, p.column + 1⟩) ⟨1, 0⟩

/-- The position at which a failure in a text is reported. -/
def Failure.position (f : Failure) (text : Bytes) : Position :=
  Position.after (text.take (text.length - f.rest.length))

/-- Why a JSON text cannot be read or written, with the position if there is one. -/
structure Error where
  cause : Cause
  position : Option Position

/-- The error that reports a failure in a text. -/
def Failure.toError (f : Failure) (text : Bytes) : Error := ⟨f.cause, some (f.position text)⟩

/-- The wording of an error. -/
def Error.message (e : Error) : String :=
  match e.position with
  | none => e.cause.message
  | some p =>
    e.cause.message ++ " at line " ++ toString p.line ++ " column " ++ toString p.column

end Json

end WireCall
