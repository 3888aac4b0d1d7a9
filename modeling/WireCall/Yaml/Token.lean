import WireCall.Bytes
import WireCall.Yaml.Failure

/-!
# The tokens of a YAML text

A token is a mark that belongs to the structure of a text, or a scalar. This module holds how the
tokens are read whose text can be long: the three kinds of scalars, tags, anchors and directives.
In a scalar a line end is folded: alone it stands for a blank, and several for all but the first.
-/

namespace WireCall

namespace Yaml

/-- How a scalar is written. -/
inductive Style where
  | plain
  | quoted
  /-- a block that keeps its lines -/
  | literal
  /-- a block whose lines are folded -/
  | folded
  deriving DecidableEq, Repr

/-- A token. -/
inductive Token where
  | version (major minor : Nat)
  | handle (name address : String)
  | documentStart
  | documentEnd
  | blockSequenceStart
  | blockMappingStart
  | blockEnd
  | flowSequenceStart
  | flowSequenceEnd
  | flowMappingStart
  | flowMappingEnd
  | blockEntry
  | flowEntry
  | key
  | value
  | reference (name : String)
  | anchor (name : String)
  | tag (handle suffix : String)
  | scalar (text : String) (style : Style)
  | textEnd
  deriving DecidableEq, Repr

/-- A token with the places where it starts and stops. -/
structure Lexeme where
  token : Token
  start : Place
  stop : Place
  deriving Repr

/-! ## Folding -/

/-- The blanks and line ends between two parts of a scalar. -/
structure Gap where
  /-- whether a line has ended -/
  leading : Bool := false
  /-- the blanks in front of the first line end -/
  blanks : List Char := []
  /-- the first line end -/
  first : List Char := []
  /-- the line ends behind it -/
  more : List Char := []

namespace Gap

/-- What the gap stands for. -/
def text (g : Gap) : List Char :=
  if g.leading then
    if g.first = ['\n'] then (if g.more.isEmpty then [' '] else g.more) else g.first ++ g.more
  else g.blanks

/-- The gap with a blank or a line end added. -/
def add (g : Gap) (c : Char) : Gap :=
  if isBlank c then (if g.leading then g else { g with blanks := g.blanks ++ [c] })
  else if g.leading then { g with more := g.more ++ [c] }
  else { leading := true, first := [c] }

/-- Reads on over blanks and line ends. -/
def read (g : Gap) : List Spot → Gap × List Spot
  | [] => (g, [])
  | s :: rest =>
    if isBlank s.char || isBreak s.char then (g.add s.char).read rest else (g, s :: rest)

/-- Reads on over blanks and line ends of a plain scalar, where no tab may stand in the
indentation. -/
def readPlain (indent : Int) (start : Place) (g : Gap) :
    List Spot → Except Failure (Gap × List Spot)
  | [] => .ok (g, [])
  | s :: rest =>
    if g.leading ∧ s.place.column < indent ∧ s.char = '\t' then
      failAt .tabInIndentation s.place .plainScalar start
    else if isBlank s.char || isBreak s.char then (g.add s.char).readPlain indent start rest
    else .ok (g, s :: rest)

end Gap

/-! ## Plain scalars -/

/-- Whether a character is one of those that structure a flow collection. -/
def isFlowMark (c : Char) : Bool := c = ',' || c = '[' || c = ']' || c = '{' || c = '}'

/-- The characters up to the next gap, or to a mark that ends the scalar. -/
def plainWord (flow : Bool) (start : Place) : List Spot → Except Failure (List Char × List Spot)
  | [] => .ok ([], [])
  | s :: rest =>
    let next := headChar rest
    if isGap s.char then .ok ([], s :: rest)
    else if flow && s.char = ':' && (isFlowMark next || next = '?') then
      failAt .unexpectedColon s.place .plainScalar start
    else if (s.char = ':' && isGap next) || (flow && isFlowMark s.char) then .ok ([], s :: rest)
    else do
      let (cs, rest) ← plainWord flow start rest
      pure (s.char :: cs, rest)

/-- A scalar that has been read: its characters, where it stopped, what follows, and whether a line
has ended behind it. -/
structure Scalar where
  chars : List Char
  stop : Place
  rest : List Spot
  atLineStart : Bool

/-- Reads the words of a plain scalar, with what stands between them. -/
def plainWords (flow : Bool) (indent : Int) (start : Place) :
    (fuel : Nat) → Scalar → Gap → Except Failure Scalar
  | 0, r, _ => .ok r
  | fuel + 1, r, g =>
    if atDocumentMarker r.rest ∨ headChar r.rest = '#' then .ok r
    else do
      let (word, rest) ← plainWord flow start r.rest
      let r :=
        if word.isEmpty then r
        else ⟨r.chars ++ g.text ++ word, headPlace rest, rest, false⟩
      let g := if word.isEmpty then g else {}
      if isGap (headChar rest) ∧ headChar rest ≠ '\x00' then
        let (g, rest) ← g.readPlain indent start rest
        let r := { r with rest, atLineStart := g.leading }
        if ¬ flow ∧ (headPlace rest).column < indent then .ok r
        else plainWords flow indent start fuel r g
      else .ok r

/-- Reads a plain scalar. -/
def plainScalar (flow : Bool) (indent : Int) (rest : List Spot) : Except Failure Scalar :=
  let start := headPlace rest
  plainWords flow indent start rest.length ⟨[], start, rest, false⟩ {}

/-! ## Quoted scalars -/

/-- The value of a hexadecimal digit. -/
def hexDigit? (c : Char) : Option Nat :=
  if c.isDigit then some (c.toNat - '0'.toNat)
  else if 'a' ≤ c ∧ c ≤ 'f' then some (c.toNat - 'a'.toNat + 10)
  else if 'A' ≤ c ∧ c ≤ 'F' then some (c.toNat - 'A'.toNat + 10)
  else none

/-- The number that the first `n` characters spell in hexadecimal digits. -/
def hexNumber? : (n : Nat) → List Spot → Nat → Option Nat
  | 0, _, acc => some acc
  | _ + 1, [], _ => none
  | n + 1, s :: rest, acc => do
    let d ← hexDigit? s.char
    hexNumber? n rest (acc * 16 + d)

/-- The character that a letter behind a backslash stands for. -/
def escapedChar? (c : Char) : Option Char :=
  match c with
  | '0' => some '\x00'
  | 'a' => some '\x07'
  | 'b' => some '\x08'
  | 't' | '\t' => some '\t'
  | 'n' => some '\n'
  | 'v' => some '\x0b'
  | 'f' => some '\x0c'
  | 'r' => some '\r'
  | 'e' => some '\x1b'
  | ' ' => some ' '
  | '"' => some '"'
  | '/' => some '/'
  | '\\' => some '\\'
  | 'N' => some '\u0085'
  | '_' => some '\u00a0'
  | 'L' => some '\u2028'
  | 'P' => some '\u2029'
  | _ => none

/-- How many hexadecimal digits follow a letter behind a backslash. -/
def escapeLength? (c : Char) : Option Nat :=
  match c with
  | 'x' => some 2
  | 'u' => some 4
  | 'U' => some 8
  | _ => none

/-- The character that a backslash and what follows stand for, and how long that is. -/
def escape (start : Place) (rest : List Spot) : Except Failure (Char × Nat) :=
  let place := headPlace rest
  match escapedChar? (secondChar rest), escapeLength? (secondChar rest) with
  | some c, _ => .ok (c, 2)
  | none, some n =>
    match hexNumber? n (rest.drop 2) 0 with
    | none => failAt .noHexadecimal (place.advance 2) .escape start
    | some v =>
      if v.isValidChar then .ok (Char.ofNat v, n + 2)
      else failAt .invalidEscape (place.advance 2) .escape start
  | none, none => failAt .unknownEscape place .escape start

/-- Reads the inside of a quoted scalar up to the closing quote. -/
def quotedChars (quote : Char) (start : Place) :
    (fuel : Nat) → (acc : List Char) → List Spot → Except Failure (List Char × List Spot)
  | 0, acc, rest => .ok (acc, rest)
  | fuel + 1, acc, rest =>
    let c := headChar rest
    if atDocumentMarker rest then failAt .documentMarker (headPlace rest) .quotedScalar start
    else if c = '\x00' then failAt .endOfText (headPlace rest) .quotedScalar start
    else if quote = '\'' ∧ c = '\'' ∧ secondChar rest = '\'' then
      quotedChars quote start fuel (acc ++ ['\'']) (rest.drop 2)
    else if c = quote then .ok (acc, rest.drop 1)
    else if quote = '"' ∧ c = '\\' then
      if isBreak (secondChar rest) then
        let (g, rest) := Gap.read { leading := true } (rest.drop 2)
        quotedChars quote start fuel (acc ++ g.text) rest
      else do
        let (e, n) ← escape start rest
        quotedChars quote start fuel (acc ++ [e]) (rest.drop n)
    else if isGap c then
      let (g, rest) := Gap.read {} rest
      quotedChars quote start fuel (acc ++ g.text) rest
    else quotedChars quote start fuel (acc ++ [c]) (rest.drop 1)

/-- Reads a quoted scalar. -/
def quotedScalar (rest : List Spot) : Except Failure (List Char × List Spot) :=
  quotedChars (headChar rest) (headPlace rest) rest.length [] (rest.drop 1)

/-! ## Block scalars -/

/-- What becomes of the line ends behind the last line of a block. -/
inductive Chomping where
  | strip
  | clip
  | keep
  deriving DecidableEq

/-- Skips the indentation of a line and the empty lines in front of it. The second part of the
answer is the widest indentation that was met. -/
def blockBreaks (indent : Nat) (start : Place) :
    (widest : Nat) → List Spot → Except Failure (List Char × Nat × List Spot)
  | widest, [] => .ok ([], widest, [])
  | widest, s :: rest =>
    let inside := indent = 0 || s.place.column < indent
    if inside && s.char = ' ' then blockBreaks indent start widest rest
    else
      let widest := max widest s.place.column
      if inside && s.char = '\t' then failAt .tabAsIndentation s.place .blockScalar start
      else if isBreak s.char then do
        let (breaks, widest, rest) ← blockBreaks indent start widest rest
        pure (s.char :: breaks, widest, rest)
      else .ok ([], widest, s :: rest)

/-- The lines of a block that have been read. -/
structure Block where
  chars : List Char
  /-- the end of the last line -/
  ending : List Char
  /-- the ends of the empty lines behind it -/
  breaks : List Char
  /-- whether the last line started with a blank -/
  blank : Bool
  rest : List Spot

/-- Reads the lines of a block. -/
def blockLines (style : Style) (indent : Nat) (start : Place) :
    (fuel : Nat) → Block → Except Failure Block
  | 0, b => .ok b
  | fuel + 1, b =>
    let c := headChar b.rest
    if (headPlace b.rest).column = indent ∧ c ≠ '\x00' then do
      let joined :=
        if style = .folded ∧ b.ending = ['\n'] ∧ ¬ b.blank ∧ ¬ isBlank c then
          (if b.breaks.isEmpty then [' '] else [])
        else b.ending
      let (line, rest) := spanChars (fun c => ¬ isLineEnd c) b.rest
      let (ending, rest) := if isBreak (headChar rest) then ([headChar rest], rest.drop 1)
        else ([], rest)
      let (breaks, _, rest) ← blockBreaks indent start 0 rest
      blockLines style indent start fuel
        ⟨b.chars ++ joined ++ b.breaks ++ line, ending, breaks, isBlank c, rest⟩
    else .ok b

/-- Reads the signs behind the mark of a block: what is kept at the end and how far it is
indented. -/
def blockHeader (start : Place) (rest : List Spot) :
    Except Failure (Chomping × Nat × List Spot) :=
  let sign? (rest : List Spot) : Option Chomping :=
    match headChar rest with
    | '+' => some .keep
    | '-' => some .strip
    | _ => none
  let digit (rest : List Spot) : Except Failure (Nat × List Spot) :=
    let c := headChar rest
    if c = '0' then failAt .zeroIndentation (headPlace rest) .blockScalar start
    else if c.isDigit then .ok (c.toNat - '0'.toNat, rest.drop 1)
    else .ok (0, rest)
  match sign? rest with
  | some chomping => do
    let (n, rest) ← digit (rest.drop 1)
    pure (chomping, n, rest)
  | none => do
    let (n, rest) ← digit rest
    match (if n = 0 then none else sign? rest) with
    | some chomping => pure (chomping, n, rest.drop 1)
    | none => pure (.clip, n, rest)

/-- What follows the blanks and the comment at the end of a line. -/
def skipComment (rest : List Spot) : List Spot :=
  let rest := skipChars isBlank rest
  if headChar rest = '#' then skipChars (fun c => ¬ isLineEnd c) rest else rest

/-- Reads a block scalar inside a block of the given indentation. -/
def blockScalar (style : Style) (outer : Int) (rest : List Spot) :
    Except Failure (List Char × List Spot) := do
  let start := headPlace rest
  let (chomping, n, rest) ← blockHeader start (rest.drop 1)
  let rest := skipComment rest
  if ¬ isLineEnd (headChar rest) then
    failAt .noCommentOrBreak (headPlace rest) .blockScalar start
  else
    let rest := if isBreak (headChar rest) then rest.drop 1 else rest
    let given := if n = 0 then 0 else outer.toNat + n
    let (breaks, widest, rest) ← blockBreaks given start 0 rest
    let indent := if given = 0 then max (max widest (outer + 1).toNat) 1 else given
    let b ← blockLines style indent start rest.length ⟨[], [], breaks, false, rest⟩
    pure (match chomping with
      | .strip => (b.chars, b.rest)
      | .clip => (b.chars ++ b.ending, b.rest)
      | .keep => (b.chars ++ b.ending ++ b.breaks, b.rest))

/-! ## Names and tags -/

/-- Reads the name of an anchor, or of the node that is referred to. -/
def anchorName (context : Context) (rest : List Spot) : Except Failure (String × List Spot) :=
  let start := headPlace rest
  let (name, rest) := spanChars isNameChar (rest.drop 1)
  let c := headChar rest
  if name.isEmpty ∨ ¬ (isGap c || "?:,]\x7d%@\x60".contains c) then
    failAt .noNameCharacter (headPlace rest) context start
  else .ok (String.ofList name, rest)

/-- Whether a character can be part of the address of a tag. -/
def isAddressChar (wide : Bool) (c : Char) : Bool :=
  isNameChar c || ";/?:@&=+$.!~*'()%".contains c || (wide && ",[]".contains c)

/-- The bytes and characters of an address, with escaped bytes decoded. -/
def unescape (start : Place) : List Spot → Except Failure Bytes
  | s :: t :: u :: rest =>
    if s.char = '%' then
      match hexDigit? t.char, hexDigit? u.char with
      | some a, some b => do
        let more ← unescape start rest
        pure (UInt8.ofNat (a * 16 + b) :: more)
      | _, _ => failAt .noOctet s.place .tagAddress start
    else do
      let more ← unescape start (t :: u :: rest)
      pure (Bytes.ofText s.char.toString ++ more)
  | s :: rest =>
    if s.char = '%' then failAt .noOctet s.place .tagAddress start
    else do
      let more ← unescape start rest
      pure (Bytes.ofText s.char.toString ++ more)
  | [] => .ok []

/-- Reads the address of a tag behind what has been read of it. -/
def tagAddress (wide : Bool) (head : List Char) (start : Place) (rest : List Spot) :
    Except Failure (String × List Spot) := do
  let (cs, after) := spanChars (isAddressChar wide) rest
  let bytes ← unescape start (rest.take cs.length)
  let head := head.drop 1
  if cs.isEmpty ∧ head.isEmpty then failAt .noTagAddress (headPlace after) .tagAddress start
  else
    match Bytes.toText? bytes with
    | some text => pure (String.ofList head ++ text, after)
    | none => failAt .noOctet (headPlace after) .tagAddress start

/-- Reads the handle of a tag, with both its marks if it has two. -/
def tagHandle (start : Place) (rest : List Spot) : Except Failure (List Char × List Spot) :=
  if headChar rest ≠ '!' then failAt .noTagMark (headPlace rest) .tag start
  else
    let (name, rest) := spanChars isNameChar (rest.drop 1)
    if headChar rest = '!' then .ok ('!' :: name ++ ['!'], rest.drop 1)
    else .ok ('!' :: name, rest)

/-- Reads a tag. -/
def tag (flow : Bool) (rest : List Spot) : Except Failure (Token × List Spot) := do
  let start := headPlace rest
  let (t, rest) ←
    if secondChar rest = '<' then do
      let (suffix, rest) ← tagAddress true [] start (rest.drop 2)
      if headChar rest ≠ '>' then failAt .noTagEnd (headPlace rest) .tag start
      else pure (Token.tag "" suffix, rest.drop 1)
    else do
      let (handle, rest) ← tagHandle start rest
      if 2 ≤ handle.length ∧ handle.getLast? = some '!' then do
        let (suffix, rest) ← tagAddress false [] start rest
        pure (Token.tag (String.ofList handle) suffix, rest)
      else if handle = ['!'] ∧ ¬ isAddressChar false (headChar rest) then
        pure (Token.tag "" "!", rest)
      else do
        let (suffix, rest) ← tagAddress false handle start rest
        pure (Token.tag "!" suffix, rest)
  let c := headChar rest
  if isGap c || (flow && c = ',') then pure (t, rest)
  else failAt .noBlankOrBreak (headPlace rest) .tag start

/-! ## Directives -/

/-- Reads a number of at most nine digits. -/
def versionNumber (start : Place) (rest : List Spot) : Except Failure (Nat × List Spot) :=
  let (digits, after) := spanChars Char.isDigit rest
  if digits.isEmpty then failAt .noVersionNumber (headPlace rest) .versionDirective start
  else if digits.length > 9 then
    failAt .longVersionNumber ((headPlace rest).advance 9) .versionDirective start
  else .ok (digits.foldl (fun n c => n * 10 + (c.toNat - '0'.toNat)) 0, after)

/-- Reads the version behind the name of a directive. -/
def versionDirective (start : Place) (rest : List Spot) : Except Failure (Token × List Spot) := do
  let (major, rest) ← versionNumber start (skipChars isBlank rest)
  if headChar rest ≠ '.' then
    failAt .noVersionDot (headPlace rest) .versionDirective start
  else do
    let (minor, rest) ← versionNumber start (rest.drop 1)
    pure (Token.version major minor, rest)

/-- Reads the handle and the address behind the name of a directive. -/
def handleDirective (start : Place) (rest : List Spot) : Except Failure (Token × List Spot) := do
  let rest := skipChars isBlank rest
  let (handle, rest) ← tagHandle start rest
  if handle ≠ ['!'] ∧ (handle.length < 2 ∨ handle.getLast? ≠ some '!') then
    failAt .noTagMark (headPlace rest) .tagDirective start
  else if ¬ isBlank (headChar rest) then failAt .noBlank (headPlace rest) .tagDirective start
  else do
    let (address, rest) ← tagAddress true [] start (skipChars isBlank rest)
    if ¬ isGap (headChar rest) then
      failAt .noBlankOrBreak (headPlace rest) .tagDirective start
    else pure (Token.handle (String.ofList handle) address, rest)

/-- Reads a directive, up to the end of its line. -/
def directive (rest : List Spot) : Except Failure (Lexeme × List Spot) := do
  let start := headPlace rest
  let (name, rest) := spanChars isNameChar (rest.drop 1)
  if name.isEmpty then failAt .noDirectiveName (headPlace rest) .directive start
  else if ¬ isGap (headChar rest) then
    failAt .directiveNotAlphabetical (headPlace rest) .directive start
  else do
    let (t, rest) ←
      match String.ofList name with
      | "YAML" => versionDirective start rest
      | "TAG" => handleDirective start rest
      | _ => failAt .unknownDirective (headPlace rest) .directive start
    let stop := headPlace rest
    let rest := skipComment rest
    if ¬ isLineEnd (headChar rest) then
      failAt .noCommentOrBreak (headPlace rest) .directive start
    else pure (⟨t, start, stop⟩, if isBreak (headChar rest) then rest.drop 1 else rest)

end Yaml

end WireCall
