import WireCall.Json.Numeral
import WireCall.Json.Quoted

/-!
# Reading any JSON value

`Json.Scan.value` reads a value of any kind. Lists and objects may nest as deep as the first
argument says; a text of 127 levels is read and one of 128 is refused.
-/

namespace WireCall

namespace Json

/-- How deep lists and objects may nest in a text. -/
def maxDepth : Nat := 127

namespace Scan

/-- Reads a value, given how lists and objects are read behind their opening bracket. -/
def valueWith (list object : Scan Json) : Scan Json := do
  match ← peek with
  | none => failNext .endInValue
  | some c =>
    if c = 0x6e then
      skipByte
      letters [0x75, 0x6c, 0x6c]
      pure .null
    else if c = 0x74 then
      skipByte
      letters [0x72, 0x75, 0x65]
      pure (.bool true)
    else if c = 0x66 then
      skipByte
      letters [0x61, 0x6c, 0x73, 0x65]
      pure (.bool false)
    else if c = 0x2d then
      skipByte
      Json.number <$> numeral false
    else if isDigit c then Json.number <$> numeral true
    else if c = 0x22 then
      skipByte
      Json.text <$> text
    else if c = 0x5b then list
    else if c = 0x7b then object
    else failNext .expectedValue

/-- Reads a member behind the opening quote of its name. -/
def memberWith {α : Type} (item : Scan α) : Scan (String × α) := do
  let name ← text
  colon
  let a ← item
  pure (name, a)

/-- Reads a value in which lists and objects nest at most `depth` deep. -/
def value (limit : Nat) : (depth : Nat) → Scan Json
  | 0 => valueWith (failNext .recursionLimit) (failNext .recursionLimit)
  | depth + 1 =>
    valueWith
      (do
        skipByte
        upTo closeList (Json.array <$> elements (value limit depth) limit true []))
      (do
        skipByte
        upTo closeObject
          (Json.ofMembers <$> members (memberWith (value limit depth)) limit true []))

end Scan

/-- The value that a text denotes. -/
def parse (text : Bytes) : Except Error Json :=
  Scan.whole (Scan.value (text.length + 1) maxDepth) text

end Json

end WireCall
