import WireCall.Json.Failure

/-!
# Scanning a JSON text

A scanner takes what it needs from the front of a text and leaves the rest. Here are the scanners
that the readers of values share: blanks, literals, the separators between elements and members,
and the ends of lists and objects.
-/

namespace WireCall

namespace Json

/-- A reader of the front of a text. -/
abbrev Scan (α : Type) := StateT Bytes (Except Failure) α

/-! ## Characters -/

/-- Space, tabulator and the two line ends. -/
def isBlank (c : UInt8) : Bool := c = 0x20 || c = 0x0a || c = 0x09 || c = 0x0d

/-- The decimal digits. -/
def isDigit (c : UInt8) : Bool := 0x30 ≤ c && c ≤ 0x39

/-- The value of a decimal digit. -/
def digitValue (c : UInt8) : Nat := c.toNat - 0x30

/-- The text without the blanks at its front. -/
def dropBlanks (s : Bytes) : Bytes := s.dropWhile isBlank

/-- The bytes of a text of ASCII characters. -/
def ascii (s : String) : Bytes := Bytes.ofText s

/-! ## Failing -/

namespace Scan

variable {α : Type}

/-- Fails at the current place. -/
def failHere (cause : Cause) : Scan α := fun s => .error ⟨cause, s, true⟩

/-- Fails after the next byte, or at the end if there is none. -/
def failNext (cause : Cause) : Scan α := fun s => .error ⟨cause, s.tail, true⟩

/-- Reports a misfit at the current place. -/
def misfit (m : Misfit) : Scan α := failHere (.misfit m)

/-- Reports a misfit whose place the surrounding value has still to settle. -/
def unsettled (m : Misfit) : Scan α := fun s => .error ⟨.misfit m, s, false⟩

/-! ## Looking and taking -/

/-- Passes blanks and looks at the next byte. -/
def peek : Scan (Option UInt8) := fun s =>
  let s := dropBlanks s
  .ok (s.head?, s)

/-- Takes one byte. -/
def skipByte : Scan Unit := fun s => .ok ((), s.tail)

/-- Takes the given letters, one by one. -/
def letters : Bytes → Scan Unit
  | [] => pure ()
  | expected :: more => fun s =>
    match s with
    | [] => .error ⟨.endInValue, [], true⟩
    | c :: rest => if c = expected then letters more rest else .error ⟨.expectedIdent, rest, true⟩

/-- Passes blanks and takes the colon after a member's name. -/
def colon : Scan Unit := do
  match ← peek with
  | some 0x3a => skipByte
  | some _ => failNext .expectedColon
  | none => failNext .endInObject

/-! ## Elements and members -/

/-- Passes what separates elements and tells whether another one follows. The bracket that ends
the list is left. -/
def nextElement (first : Bool) : Scan Bool := do
  match ← peek with
  | none => failNext .endInList
  | some 0x5d => pure false
  | some c =>
    if first then pure true
    else if c = 0x2c then
      skipByte
      match ← peek with
      | some 0x5d => failNext .trailingComma
      | some _ => pure true
      | none => failNext .endInValue
    else failNext .expectedListCommaOrEnd

/-- Passes what separates members and tells whether another one follows; its name then starts with
the quote that is next. The brace that ends the object is left. -/
def nextMember (first : Bool) : Scan Bool := do
  match ← peek with
  | none => failNext .endInObject
  | some 0x7d => pure false
  | some c =>
    if first then
      if c = 0x22 then pure true else failNext .keyMustBeText
    else if c = 0x2c then
      skipByte
      match ← peek with
      | some 0x22 => pure true
      | some 0x7d => failNext .trailingComma
      | some _ => failNext .keyMustBeText
      | none => failNext .endInValue
    else failNext .expectedObjectCommaOrEnd

/-! ## Ends -/

/-- The end of a list or object: the rest behind it, or the rest at which it was looked for and
the failure. -/
abbrev Close := Bytes → Bytes × Option Failure

/-- The end of a list. -/
def closeList : Close := fun s =>
  match dropBlanks s with
  | [] => ([], some ⟨.endInList, [], true⟩)
  | c :: rest =>
    if c = 0x5d then (rest, none)
    else if c = 0x2c then
      let rest := dropBlanks rest
      match rest with
      | 0x5d :: after => (rest, some ⟨.trailingComma, after, true⟩)
      | _ => (rest, some ⟨.trailingCharacters, rest.tail, true⟩)
    else (c :: rest, some ⟨.trailingCharacters, rest, true⟩)

/-- The end of an object. -/
def closeObject : Close := fun s =>
  match dropBlanks s with
  | [] => ([], some ⟨.endInObject, [], true⟩)
  | c :: rest =>
    if c = 0x7d then (rest, none)
    else if c = 0x2c then (c :: rest, some ⟨.trailingComma, rest, true⟩)
    else (c :: rest, some ⟨.trailingCharacters, rest, true⟩)

/-- Reads the inside of a list or object and then its end. A misfit that is not settled yet is
reported where the end was looked for. -/
def upTo (close : Close) (inside : Scan α) : Scan α := fun s =>
  match inside s with
  | .ok (a, s) =>
    match close s with
    | (s, none) => .ok (a, s)
    | (_, some f) => .error f
  | .error f => .error (if f.settled then f else ⟨f.cause, (close f.rest).1, true⟩)

/-- Reads elements up to the end of the list. No list has `limit` elements. -/
def elements (item : Scan α) : (limit : Nat) → (first : Bool) → (acc : List α) → Scan (List α)
  | 0, _, _ => failHere .endInList
  | limit + 1, first, acc => do
    if ← nextElement first then
      let a ← item
      elements item limit false (a :: acc)
    else pure acc.reverse

/-- Reads members, the name of each without its opening quote, up to the end of the object. No
object has `limit` members. -/
def members (member : Scan α) : (limit : Nat) → (first : Bool) → (acc : List α) → Scan (List α)
  | 0, _, _ => failHere .endInObject
  | limit + 1, first, acc => do
    if ← nextMember first then
      skipByte
      let a ← member
      members member limit false (a :: acc)
    else pure acc.reverse

/-- Reads a whole text, which may end in blanks only. -/
def whole (scan : Scan α) (text : Bytes) : Except Error α :=
  match scan text with
  | .error f => .error (f.toError text)
  | .ok (a, rest) =>
    match dropBlanks rest with
    | [] => .ok a
    | _ :: rest => .error (Failure.toError ⟨.trailingCharacters, rest, true⟩ text)

end Scan

end Json

end WireCall
