/-!
# Places in a YAML text

Line and column decide what a YAML text means, so every character is kept together with its place.
All spellings of a line end are one character here, and a zero character, which no text may hold,
stands behind the last one.
-/

namespace WireCall

namespace Yaml

/-- A place in a text, counted from zero. -/
structure Place where
  /-- how many characters stand before -/
  index : Nat := 0
  line : Nat := 0
  column : Nat := 0
  deriving DecidableEq, Repr, Inhabited

namespace Place

/-- Whether the place is the start of the text. -/
def isStart (p : Place) : Bool := p.line = 0 && p.column = 0

/-- A place as it is told, counted from one. -/
def text (p : Place) : String :=
  "line " ++ toString (p.line + 1) ++ " column " ++ toString (p.column + 1)

/-- The place behind some characters of the same line. -/
def advance (p : Place) (n : Nat) : Place := ⟨p.index + n, p.line, p.column + n⟩

end Place

/-- A character at its place. -/
structure Spot where
  char : Char
  place : Place

/-! ## Kinds of characters -/

/-- Whether a character ends a line. -/
def isBreak (c : Char) : Bool := c = '\n' || c = '\u2028' || c = '\u2029'

/-- Whether a character is a blank within a line. -/
def isBlank (c : Char) : Bool := c = ' ' || c = '\t'

/-- Whether the text or a line ends here. -/
def isLineEnd (c : Char) : Bool := c = '\x00' || isBreak c

/-- Whether a word ends here. -/
def isGap (c : Char) : Bool := isBlank c || isLineEnd c

/-- Whether a character can be part of the name of an anchor or a handle. -/
def isNameChar (c : Char) : Bool := c.isAlphanum || c = '_' || c = '-'

/-- Whether a character may stand in a text at all. -/
def isAllowed (c : Char) : Bool :=
  let n := c.toNat
  n = 0x09 || n = 0x0a || n = 0x0d || (0x20 ≤ n && n ≤ 0x7e) || n = 0x85
    || (0xa0 ≤ n && n ≤ 0xd7ff) || (0xe000 ≤ n && n ≤ 0xfffd) || 0x10000 ≤ n

/-! ## Texts -/

/-- The characters from the given place on. -/
def spotsFrom : Place → List Char → List Spot
  | p, [] => [⟨'\x00', p⟩]
  | p, '\r' :: '\n' :: rest => ⟨'\n', p⟩ :: spotsFrom ⟨p.index + 2, p.line + 1, 0⟩ rest
  | p, c :: rest =>
    if c = '\r' ∨ c = '\n' ∨ c = '\u0085' then
      ⟨'\n', p⟩ :: spotsFrom ⟨p.index + 1, p.line + 1, 0⟩ rest
    else if isBreak c then ⟨c, p⟩ :: spotsFrom ⟨p.index + 1, p.line + 1, 0⟩ rest
    else ⟨c, p⟩ :: spotsFrom (p.advance 1) rest

/-- The first character. -/
def headChar : List Spot → Char
  | s :: _ => s.char
  | [] => '\x00'

/-- The place of the first character. -/
def headPlace : List Spot → Place
  | s :: _ => s.place
  | [] => {}

/-- The character behind the first one. -/
def secondChar (rest : List Spot) : Char := headChar (rest.drop 1)

/-- The characters in front that satisfy a condition, and the rest. -/
def spanChars (p : Char → Bool) : List Spot → List Char × List Spot
  | [] => ([], [])
  | s :: rest =>
    if p s.char then
      let (cs, rest) := spanChars p rest
      (s.char :: cs, rest)
    else ([], s :: rest)

/-- What follows the characters in front that satisfy a condition. -/
def skipChars (p : Char → Bool) (rest : List Spot) : List Spot := (spanChars p rest).2

/-- Whether a line of its own starts with the same character three times. -/
def atMarker (c : Char) : List Spot → Bool
  | s :: t :: u :: rest =>
    s.place.column = 0 && s.char = c && t.char = c && u.char = c && isGap (headChar rest)
  | _ => false

/-- Whether a document begins or ends here. -/
def atDocumentMarker (rest : List Spot) : Bool := atMarker '-' rest || atMarker '.' rest

end Yaml

end WireCall
