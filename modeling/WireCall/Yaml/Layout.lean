import WireCall.Yaml.Token

/-!
# The layout of a YAML text

The indentation of a text says where blocks begin and end. Cutting a text into tokens therefore
keeps the indentations of the blocks that are open, and puts tokens for their beginnings and ends
between the tokens that are written. Whether a scalar is a key shows only at the colon behind it, so
the place of a token that may turn out to be a key is kept until then, one for each level of flow
collections; a key has to be on one line and not too long.
-/

namespace WireCall

namespace Yaml

/-- A token that may turn out to be a key. -/
structure KeyMark where
  /-- whether it has to be one, because a block is indented as it is -/
  required : Bool
  /-- the number of the token -/
  number : Nat
  place : Place

/-- How far a text has been cut into tokens. -/
structure Layout where
  rest : List Spot
  lexemes : Array Lexeme := #[]
  /-- the indentation of the innermost open block -/
  indent : Int := -1
  /-- the indentations of the blocks around it -/
  outer : List Int := []
  /-- the tokens that may turn out to be keys, one for each level, the innermost first -/
  keys : List (Option KeyMark) := [none]
  /-- whether a key may start here -/
  keyAllowed : Bool := true
  finished : Bool := false

namespace Layout

/-- The current place. -/
def place (l : Layout) : Place := headPlace l.rest

/-- The current column. -/
def column (l : Layout) : Nat := l.place.column

/-- Whether a flow collection is open. -/
def inFlow (l : Layout) : Bool := 1 < l.keys.length

/-- Adds a token. -/
def push (l : Layout) (t : Token) (start stop : Place) : Layout :=
  { l with lexemes := l.lexemes.push ⟨t, start, stop⟩ }

/-- Adds a token of the given length and goes on behind it. -/
def take (l : Layout) (t : Token) (n : Nat) : Layout :=
  let after := { l with rest := l.rest.drop n }
  after.push t l.place after.place

/-! ## Indentation -/

/-- Opens a block at a column, in front of the token of the given number. -/
def openBlock (l : Layout) (t : Token) (column number : Nat) (place : Place) : Layout :=
  if ¬ l.inFlow ∧ l.indent < column then
    { l with
      indent := column
      outer := l.indent :: l.outer
      lexemes := l.lexemes.insertIdxIfInBounds number ⟨t, place, place⟩ }
  else l

/-- Closes the blocks that are indented further than a column. -/
def closeBlocksFrom (column : Int) : List Int → Layout → Layout
  | [], l => l
  | i :: outer, l =>
    if column < l.indent then
      closeBlocksFrom column outer
        { l.push .blockEnd l.place l.place with indent := i, outer }
    else l

/-- Closes the blocks that are indented further than a column. -/
def closeBlocks (l : Layout) (column : Int) : Layout :=
  if l.inFlow then l else closeBlocksFrom column l.outer l

/-! ## Keys -/

/-- Gives up that the marked token is a key. -/
def dropKey (l : Layout) : Except Failure Layout :=
  match l.keys with
  | some k :: keys =>
    if k.required then failAt .noColon l.place .simpleKey k.place
    else .ok { l with keys := none :: keys }
  | _ => .ok l

/-- Marks the next token as one that may turn out to be a key. -/
def markKey (l : Layout) : Except Failure Layout :=
  if l.keyAllowed then do
    let k : KeyMark := ⟨!l.inFlow && l.indent == l.column, l.lexemes.size, l.place⟩
    let l ← l.dropKey
    pure { l with keys := some k :: l.keys.drop 1 }
  else .ok l

/-- Whether a marked token is too far back to be a key. -/
def isStale (here : Place) (k : KeyMark) : Bool :=
  k.place.line < here.line || k.place.index + 1024 < here.index

/-- Gives up all marked tokens that are too far back. -/
def dropStale (l : Layout) : Except Failure Layout := do
  let keys ← l.keys.mapM fun key =>
    match key with
    | some k =>
      if isStale l.place k then
        if k.required then failAt .noColon l.place .simpleKey k.place else .ok none
      else .ok (some k)
    | none => .ok none
  pure { l with keys }

/-! ## Tokens -/

/-- Goes on to the next token, over blanks, comments and line ends. A tab does not count as a blank
where it would be indentation. -/
def skipToToken : (fuel : Nat) → Layout → Layout
  | 0, l => l
  | fuel + 1, l =>
    let isSkipped c := c = ' ' || ((l.inFlow || !l.keyAllowed) && c = '\t')
    let rest := skipChars isSkipped l.rest
    let rest := if headChar rest = '#' then skipChars (fun c => ¬ isLineEnd c) rest else rest
    if isBreak (headChar rest) then
      skipToToken fuel { l with rest := rest.drop 1, keyAllowed := l.keyAllowed || !l.inFlow }
    else { l with rest }

/-- The mark of a document, or a directive: it closes all blocks. -/
def leaveBlocks (l : Layout) : Except Failure Layout := do
  let l ← (l.closeBlocks (-1)).dropKey
  pure { l with keyAllowed := false }

/-- The end of the text. -/
def finish (l : Layout) : Except Failure Layout := do
  let here := l.place
  let stop : Place := if here.column = 0 then here else ⟨here.index, here.line + 1, 0⟩
  let l ← leaveBlocks { l with rest := [⟨'\x00', stop⟩] }
  pure { l.push .textEnd stop stop with finished := true }

/-- The opening mark of a flow collection. -/
def openFlow (l : Layout) (t : Token) : Except Failure Layout := do
  let l ← l.markKey
  pure ({ l with keys := none :: l.keys, keyAllowed := true }.take t 1)

/-- The closing mark of a flow collection. -/
def closeFlow (l : Layout) (t : Token) : Except Failure Layout := do
  let l ← l.dropKey
  let keys := if l.inFlow then l.keys.drop 1 else l.keys
  pure ({ l with keys, keyAllowed := false }.take t 1)

/-- The comma between the entries of a flow collection. -/
def flowEntry (l : Layout) : Except Failure Layout := do
  let l ← l.dropKey
  pure ({ l with keyAllowed := true }.take .flowEntry 1)

/-- The dash in front of an entry of a sequence. -/
def blockEntry (l : Layout) : Except Failure Layout :=
  if ¬ l.inFlow ∧ ¬ l.keyAllowed then failHere .entryNotAllowed l.place
  else do
    let l ← (l.openBlock .blockSequenceStart l.column l.lexemes.size l.place).dropKey
    pure ({ l with keyAllowed := true }.take .blockEntry 1)

/-- The question mark in front of a key. -/
def explicitKey (l : Layout) : Except Failure Layout :=
  if ¬ l.inFlow ∧ ¬ l.keyAllowed then failHere .keyNotAllowed l.place
  else do
    let l ← (l.openBlock .blockMappingStart l.column l.lexemes.size l.place).dropKey
    pure ({ l with keyAllowed := !l.inFlow }.take .key 1)

/-- The colon in front of a value. If a key is marked, it is one now. -/
def value (l : Layout) : Except Failure Layout :=
  match l.keys with
  | some k :: keys =>
    let lexemes := l.lexemes.insertIdxIfInBounds k.number ⟨.key, k.place, k.place⟩
    let l := { l with lexemes }.openBlock .blockMappingStart k.place.column k.number k.place
    .ok ({ l with keys := none :: keys, keyAllowed := false }.take .value 1)
  | _ =>
    if ¬ l.inFlow ∧ ¬ l.keyAllowed then failHere .valueNotAllowed l.place
    else
      let l := l.openBlock .blockMappingStart l.column l.lexemes.size l.place
      .ok ({ l with keyAllowed := !l.inFlow }.take .value 1)

/-- A token that may be a key and is read by a function of its own. -/
def content (l : Layout) (read : List Spot → Except Failure (Token × List Spot)) :
    Except Failure Layout := do
  let l ← l.markKey
  let (t, rest) ← read l.rest
  pure ({ l with rest, keyAllowed := false }.push t l.place (headPlace rest))

/-- A plain scalar. -/
def plain (l : Layout) : Except Failure Layout := do
  let l ← l.markKey
  let s ← plainScalar l.inFlow (l.indent + 1) l.rest
  let t := Token.scalar (String.ofList s.chars) .plain
  pure ({ l with rest := s.rest, keyAllowed := s.atLineStart }.push t l.place s.stop)

/-- A block scalar. -/
def block (l : Layout) (style : Style) : Except Failure Layout := do
  let l ← l.dropKey
  let (cs, rest) ← blockScalar style l.indent l.rest
  let t := Token.scalar (String.ofList cs) style
  pure ({ l with rest, keyAllowed := true }.push t l.place (headPlace rest))

/-- Whether a plain scalar can start here. -/
def startsPlain (l : Layout) : Bool :=
  let c := headChar l.rest
  let next := secondChar l.rest
  !(isGap c || "-?:,[]\x7b\x7d#&*!|>'\"%@\x60".contains c) || (c = '-' && !isBlank next)
    || (!l.inFlow && (c = '?' || c = ':') && !isGap next)

/-- Reads the next token. -/
def next (l : Layout) : Except Failure Layout := do
  let l ← (skipToToken l.rest.length l).dropStale
  let l := l.closeBlocks l.column
  let c := headChar l.rest
  let gapFollows := isGap (secondChar l.rest)
  if c = '\x00' then l.finish
  else if l.column = 0 ∧ c = '%' then do
    let l ← l.leaveBlocks
    let (lexeme, rest) ← directive l.rest
    pure { l with rest, lexemes := l.lexemes.push lexeme }
  else if atMarker '-' l.rest then do
    let l ← l.leaveBlocks
    pure (l.take .documentStart 3)
  else if atMarker '.' l.rest then do
    let l ← l.leaveBlocks
    pure (l.take .documentEnd 3)
  else if c = '[' then l.openFlow .flowSequenceStart
  else if c = '{' then l.openFlow .flowMappingStart
  else if c = ']' then l.closeFlow .flowSequenceEnd
  else if c = '}' then l.closeFlow .flowMappingEnd
  else if c = ',' then l.flowEntry
  else if c = '-' ∧ gapFollows then l.blockEntry
  else if c = '?' ∧ (l.inFlow ∨ gapFollows) then l.explicitKey
  else if c = ':' ∧ (l.inFlow ∨ gapFollows) then l.value
  else if c = '*' then
    l.content fun rest => do
      let (name, rest) ← anchorName .reference rest
      pure (.reference name, rest)
  else if c = '&' then
    l.content fun rest => do
      let (name, rest) ← anchorName .anchor rest
      pure (.anchor name, rest)
  else if c = '!' then l.content (tag l.inFlow)
  else if c = '|' ∧ ¬ l.inFlow then l.block .literal
  else if c = '>' ∧ ¬ l.inFlow then l.block .folded
  else if c = '\'' ∨ c = '"' then
    l.content fun rest => do
      let (cs, rest) ← quotedScalar rest
      pure (.scalar (String.ofList cs) .quoted, rest)
  else if l.startsPlain then l.plain
  else failAt .noToken l.place .token l.place

/-- The tokens that are certain: those in front of all that may still turn out to be keys. -/
def certain (l : Layout) : List Lexeme :=
  let numbers := l.keys.filterMap fun key => key.map KeyMark.number
  l.lexemes.toList.take (numbers.foldl min l.lexemes.size)

/-- All tokens, or those before a failure, and the failure. -/
def readAll : (fuel : Nat) → Layout → List Lexeme × Option Failure
  | 0, l => (l.lexemes.toList, none)
  | fuel + 1, l =>
    if l.finished then (l.lexemes.toList, none)
    else
      match l.next with
      | .ok l => readAll fuel l
      | .error e => (l.certain, some e)

end Layout

/-- The place of the first character that may not stand in a text, in bytes. -/
def badByte? : (offset : Nat) → List Char → Option Nat
  | _, [] => none
  | offset, c :: rest => if isAllowed c then badByte? (offset + c.utf8Size) rest else some offset

/-- The tokens of a text, up to the first failure. -/
def lexemes (text : String) : List Lexeme × Option Failure :=
  match badByte? 0 text.toList with
  | some offset => ([], some ⟨.controlCharacter, {}, none, offset⟩)
  | none =>
    let chars := match text.toList with
      | '\ufeff' :: rest => rest
      | all => all
    let rest := spotsFrom {} chars
    Layout.readAll (rest.length + 1) { rest }

end Yaml

end WireCall
