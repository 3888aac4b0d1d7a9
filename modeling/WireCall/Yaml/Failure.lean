import WireCall.Yaml.Place

/-!
# What can be wrong with a YAML text

A failure says what is wrong and where, and often what was being read and where that had started.
-/

namespace WireCall

namespace Yaml

/-- What is wrong. -/
inductive Problem where
  | controlCharacter
  | noToken
  | noColon
  | entryNotAllowed
  | keyNotAllowed
  | valueNotAllowed
  | unknownDirective
  | noDirectiveName
  | directiveNotAlphabetical
  | noCommentOrBreak
  | noVersionDot
  | longVersionNumber
  | noVersionNumber
  | noTagMark
  | noTagAddress
  | noOctet
  | noTagEnd
  | noBlank
  | noBlankOrBreak
  | noNameCharacter
  | zeroIndentation
  | tabAsIndentation
  | tabInIndentation
  | documentMarker
  | endOfText
  | unknownEscape
  | noHexadecimal
  | invalidEscape
  | unexpectedColon
  | noDocumentStart
  | twoVersions
  | wrongVersion
  | twoHandles
  | unknownHandle
  | noContent
  | noEntry
  | noKey
  | noCommaOrBracket
  | noCommaOrBrace

/-- The wording of a problem. -/
def Problem.text : Problem → String
  | .controlCharacter => "control characters are not allowed"
  | .noToken => "found character that cannot start any token"
  | .noColon => "could not find expected ':'"
  | .entryNotAllowed => "block sequence entries are not allowed in this context"
  | .keyNotAllowed => "mapping keys are not allowed in this context"
  | .valueNotAllowed => "mapping values are not allowed in this context"
  | .unknownDirective => "found unknown directive name"
  | .noDirectiveName => "could not find expected directive name"
  | .directiveNotAlphabetical => "found unexpected non-alphabetical character"
  | .noCommentOrBreak => "did not find expected comment or line break"
  | .noVersionDot => "did not find expected digit or '.' character"
  | .longVersionNumber => "found extremely long version number"
  | .noVersionNumber => "did not find expected version number"
  | .noTagMark => "did not find expected '!'"
  | .noTagAddress => "did not find expected tag URI"
  | .noOctet => "did not find URI escaped octet"
  | .noTagEnd => "did not find the expected '>'"
  | .noBlank => "did not find expected whitespace"
  | .noBlankOrBreak => "did not find expected whitespace or line break"
  | .noNameCharacter => "did not find expected alphabetic or numeric character"
  | .zeroIndentation => "found an indentation indicator equal to 0"
  | .tabAsIndentation => "found a tab character where an indentation space is expected"
  | .tabInIndentation => "found a tab character that violates indentation"
  | .documentMarker => "found unexpected document indicator"
  | .endOfText => "found unexpected end of stream"
  | .unknownEscape => "found unknown escape character"
  | .noHexadecimal => "did not find expected hexdecimal number"
  | .invalidEscape => "found invalid Unicode character escape code"
  | .unexpectedColon => "found unexpected ':'"
  | .noDocumentStart => "did not find expected <document start>"
  | .twoVersions => "found duplicate %YAML directive"
  | .wrongVersion => "found incompatible YAML document"
  | .twoHandles => "found duplicate %TAG directive"
  | .unknownHandle => "found undefined tag handle"
  | .noContent => "did not find expected node content"
  | .noEntry => "did not find expected '-' indicator"
  | .noKey => "did not find expected key"
  | .noCommaOrBracket => "did not find expected ',' or ']'"
  | .noCommaOrBrace => "did not find expected ',' or '\x7d'"

/-- What was being read. -/
inductive Context where
  | token
  | simpleKey
  | directive
  | versionDirective
  | tagDirective
  | tag
  | tagAddress
  | anchor
  | reference
  | blockScalar
  | quotedScalar
  | escape
  | plainScalar
  | blockNode
  | flowNode
  | node
  | blockCollection
  | blockMapping
  | flowSequence
  | flowMapping

/-- The wording of a context. -/
def Context.text : Context → String
  | .token => "while scanning for the next token"
  | .simpleKey => "while scanning a simple key"
  | .directive => "while scanning a directive"
  | .versionDirective => "while scanning a %YAML directive"
  | .tagDirective => "while scanning a %TAG directive"
  | .tag => "while scanning a tag"
  | .tagAddress => "while parsing a tag"
  | .anchor => "while scanning an anchor"
  | .reference => "while scanning an alias"
  | .blockScalar => "while scanning a block scalar"
  | .quotedScalar => "while scanning a quoted scalar"
  | .escape => "while parsing a quoted scalar"
  | .plainScalar => "while scanning a plain scalar"
  | .blockNode => "while parsing a block node"
  | .flowNode => "while parsing a flow node"
  | .node => "while parsing a node"
  | .blockCollection => "while parsing a block collection"
  | .blockMapping => "while parsing a block mapping"
  | .flowSequence => "while parsing a flow sequence"
  | .flowMapping => "while parsing a flow mapping"

/-- Why a text cannot be read. -/
structure Failure where
  problem : Problem
  /-- where the problem is -/
  place : Place
  /-- what was being read and where it started -/
  context : Option (Context × Place) := none
  /-- the byte at fault, if the text was given up before anything was read -/
  offset : Nat := 0

/-- The wording of a failure. A place at the start of the text is not told, and the place of the
context only where it differs from that of the problem. -/
def Failure.message (f : Failure) : String :=
  let place :=
    if ¬ f.place.isStart then " at " ++ f.place.text
    else if f.offset ≠ 0 then " at position " ++ toString f.offset
    else ""
  let context :=
    match f.context with
    | none => ""
    | some (c, p) =>
      let differs := p.line ≠ f.place.line ∨ p.column ≠ f.place.column
      ", " ++ c.text ++ (if ¬ p.isStart ∧ differs then " at " ++ p.text else "")
  f.problem.text ++ place ++ context

/-- A failure at a place, in the context of what started somewhere. -/
def failAt {α : Type} (problem : Problem) (place : Place) (context : Context) (start : Place) :
    Except Failure α :=
  .error ⟨problem, place, some (context, start), 0⟩

/-- A failure at a place by itself. -/
def failHere {α : Type} (problem : Problem) (place : Place) : Except Failure α :=
  .error ⟨problem, place, none, 0⟩

end Yaml

end WireCall
