import WireCall.Json
import WireCall.Json.Quoted

/-!
# Writing JSON values

A value is written without blanks between its parts, or spread over lines, two spaces further in
for each level. A double that is infinite or undefined is written as `null`.
-/

namespace WireCall

/-- The text of a number. -/
def Numeral.text : Numeral → Bytes
  | .natural n => (Double.digitText n).map fun c => UInt8.ofNat c.toNat
  | .negative i =>
    0x2d :: (Double.digitText i.natAbs).map fun c => UInt8.ofNat c.toNat
  | .double x =>
    if x.isFinite then x.decimalText.map fun c => UInt8.ofNat c.toNat
    else [0x6e, 0x75, 0x6c, 0x6c]

namespace Json

/-- The literal of a truth value. -/
def boolText (b : Bool) : Bytes :=
  if b then [0x74, 0x72, 0x75, 0x65] else [0x66, 0x61, 0x6c, 0x73, 0x65]

/-- The literal `null`. -/
def nullText : Bytes := [0x6e, 0x75, 0x6c, 0x6c]

/-- Texts with a comma between them. -/
def joinComma (items : List Bytes) : Bytes := (items.flatMap fun a => 0x2c :: a).tail

/-- Texts as the elements of a list. -/
def listText (items : List Bytes) : Bytes := 0x5b :: (joinComma items ++ [0x5d])

/-- Texts as the members of an object. -/
def objectText (members : List (String × Bytes)) : Bytes :=
  0x7b :: (joinComma (members.map fun p => quote p.1 ++ 0x3a :: p.2) ++ [0x7d])

mutual

/-- The text of a value without blanks. -/
def compact : Json → Bytes
  | .null => nullText
  | .bool b => boolText b
  | .number n => n.text
  | .text s => quote s
  | .array items => listText (compactItems items)
  | .object members => objectText (compactMembers members)

/-- The texts of the elements of a list. -/
def compactItems : List Json → List Bytes
  | [] => []
  | j :: rest => compact j :: compactItems rest

/-- The texts of the members of an object. -/
def compactMembers : List (String × Json) → List (String × Bytes)
  | [] => []
  | (name, j) :: rest => (name, compact j) :: compactMembers rest

end

/-! ## Lines -/

/-- A line end and the blanks at the front of the next line. -/
def lineBreak (level : Nat) : Bytes := 0x0a :: List.replicate (2 * level) 0x20

/-- Texts between brackets, each on a line of its own. -/
def spread (opening closing : UInt8) (level : Nat) (items : List Bytes) : Bytes :=
  match items with
  | [] => [opening, closing]
  | _ =>
    opening :: (joinComma (items.map fun b => lineBreak (level + 1) ++ b) ++ lineBreak level
      ++ [closing])

mutual

/-- The text of a value spread over lines. -/
def pretty (level : Nat) : Json → Bytes
  | .null => nullText
  | .bool b => boolText b
  | .number n => n.text
  | .text s => quote s
  | .array items => spread 0x5b 0x5d level (prettyItems (level + 1) items)
  | .object members => spread 0x7b 0x7d level (prettyMembers (level + 1) members)

/-- The texts of the elements of a list. -/
def prettyItems (level : Nat) : List Json → List Bytes
  | [] => []
  | j :: rest => pretty level j :: prettyItems level rest

/-- The texts of the members of an object, each with its name. -/
def prettyMembers (level : Nat) : List (String × Json) → List Bytes
  | [] => []
  | (name, j) :: rest =>
    (quote name ++ [0x3a, 0x20] ++ pretty level j) :: prettyMembers level rest

end

end Json

end WireCall
