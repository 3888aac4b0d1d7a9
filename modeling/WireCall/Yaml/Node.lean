import WireCall.Yaml.Layout

/-!
# The tree of a YAML text

A text is a tree of scalars, sequences and mappings. A node that has been given a name can be
referred to from then on. Where the text cannot be understood the tree is cut off: all nodes in
front of the failure are there, and the first one that is not is *lost*, so that a reader of the
tree can tell what came first, something it does not want or the failure.
-/

namespace WireCall

namespace Yaml

/-- A node of a text. -/
inductive Node where
  | scalar (text : String) (style : Style) (tag : Option String) (place : Place)
  | sequence (items : List Node) (place : Place)
  | mapping (entries : List (Node × Node)) (place : Place)
  /-- the node with the given number among those that were given names -/
  | reference (number : Nat)
  /-- a node that is not there because the text ends in a failure -/
  | lost
  deriving Inhabited

/-- Why a tree is cut off. -/
inductive Cut where
  | malformed (f : Failure)
  | unknownAnchor (place : Place)

/-- The wording of a cut. -/
def Cut.message : Cut → String
  | .malformed f => f.message
  | .unknownAnchor place =>
    "unknown anchor" ++ (if place.isStart then "" else " at " ++ place.text)

/-- How far a tree has been built. -/
structure Builder where
  lexemes : List Lexeme
  /-- the failure behind the last token -/
  broken : Option Failure
  /-- what the handles of tags stand for -/
  handles : List (String × String) := []
  /-- the numbers of the named nodes, the last name first -/
  names : List (String × Nat) := []
  /-- the named nodes that are complete -/
  named : List (Nat × Node) := []
  cut : Option Cut := none

/-- A step in building a tree. -/
abbrev Build := StateM Builder

namespace Build

/-- Cuts the tree off, unless that has been done. -/
def cutOff (c : Cut) : Build Node := do
  modify fun b => { b with cut := b.cut.or (some c) }
  pure .lost

/-- Cuts the tree off for a problem in a context. -/
def failIn (problem : Problem) (place : Place) (context : Context) (start : Place) : Build Node :=
  cutOff (.malformed ⟨problem, place, some (context, start), 0⟩)

/-- The next token, unless the tree is cut off. -/
def peek : Build (Option Lexeme) := do
  let b ← get
  match b.cut, b.lexemes with
  | some _, _ => pure none
  | none, l :: _ => pure (some l)
  | none, [] =>
    let f : Failure := b.broken.getD ⟨.endOfText, {}, none, 0⟩
    set { b with cut := some (.malformed f) }
    pure none

/-- Goes on behind the next token. -/
def skip : Build Unit := modify fun b => { b with lexemes := b.lexemes.drop 1 }

/-- A scalar that is not written. -/
def absent (place : Place) : Node := .scalar "" .plain none place

/-- Whether the tree is cut off. -/
def isCut : Build Bool := do return (← get).cut.isSome

/-- What a tag stands for. -/
def tagText (handle suffix : String) (start place : Place) : Build (Option String) := do
  if handle.isEmpty then return if suffix = "!" then none else some suffix
  let given := (← get).handles ++ [("!", "!"), ("!!", "tag:yaml.org,2002:")]
  match given.find? fun p => p.1 = handle with
  | some (_, address) => return some (address ++ suffix)
  | none =>
    let _ ← failIn .unknownHandle place .node start
    return none

/-- The properties in front of a node: its name and its tag, each at most once. -/
def properties (start : Place) :
    (fuel : Nat) → Option String → Option (Option String) →
      Build (Option String × Option (Option String))
  | 0, name, tag => pure (name, tag)
  | fuel + 1, name, tag => do
    match (← peek).map Lexeme.token, (← peek).map Lexeme.start, name, tag with
    | some (.anchor a), _, none, tag =>
      skip
      properties start fuel (some a) tag
    | some (.tag handle suffix), some place, name, none =>
      skip
      let t ← tagText handle suffix start place
      properties start fuel name (some t)
    | _, _, name, tag => pure (name, tag)

/-- Gives a node its name while it is being built. -/
def withName (name : Option String) (build : Build Node) : Build Node := do
  match name with
  | none => build
  | some name =>
    let number := (← get).names.length
    modify fun b => { b with names := (name, number) :: b.names }
    let n ← build
    modify fun b => { b with named := (number, n) :: b.named }
    pure n

/-- Whether a token is one of some. -/
def isOne (l : Option Lexeme) (tokens : List Token) : Bool :=
  match l with
  | some l => l.token ∈ tokens
  | none => false

/-- A node without content, which is allowed only behind a name or a tag. -/
def bare (block : Bool) (name : Option String) (tag : Option (Option String))
    (start : Place) (l : Lexeme) : Build Node :=
  if name.isSome ∨ tag.isSome then
    withName name (pure (.scalar "" .plain (tag.getD none) start))
  else failIn .noContent l.start (if block then .blockNode else .flowNode) start

mutual

/-- A node, where block collections are allowed or not, and a sequence may be indented as the
mapping around it or not. -/
def node (fuel : Nat) (block indentless : Bool) : Build Node :=
  match fuel with
  | 0 => pure .lost
  | fuel + 1 => do
    let some first ← peek | pure .lost
    let start := first.start
    if let .reference name := first.token then
      skip
      match (← get).names.find? fun p => p.1 = name with
      | some (_, number) => pure (.reference number)
      | none => cutOff (.unknownAnchor start)
    else
      let (name, tag) ← properties start 2 none none
      let some l ← peek | pure .lost
      match l.token with
      | .blockEntry =>
        if indentless then
          withName name do return .sequence (← indentlessItems fuel) start
        else bare block name tag start l
      | .scalar text style =>
        skip
        withName name (pure (.scalar text style (tag.getD none) start))
      | .flowSequenceStart =>
        skip
        withName name do return .sequence (← flowItems fuel l.start true) start
      | .flowMappingStart =>
        skip
        withName name do return .mapping (← flowPairs fuel l.start true) start
      | .blockSequenceStart =>
        if block then
          skip
          withName name do return .sequence (← blockItems fuel l.start) start
        else bare block name tag start l
      | .blockMappingStart =>
        if block then
          skip
          withName name do return .mapping (← blockPairs fuel l.start) start
        else bare block name tag start l
      | _ => bare block name tag start l
termination_by (fuel, 0)

/-- A node, or nothing in front of some tokens. -/
def nodeUnless (fuel : Nat) (tokens : List Token) (block indentless : Bool) (place : Place) :
    Build Node := do
  if isOne (← peek) tokens then pure (absent place) else node fuel block indentless
termination_by (fuel, 1)

/-- The entries of a block sequence. -/
def blockItems (fuel : Nat) (start : Place) : Build (List Node) :=
  match fuel with
  | 0 => pure [.lost]
  | fuel + 1 => do
    let some l ← peek | pure [.lost]
    match l.token with
    | .blockEntry =>
      skip
      let n ← nodeUnless fuel [.blockEntry, .blockEnd] true false l.stop
      if ← isCut then pure [n, .lost] else return n :: (← blockItems fuel start)
    | .blockEnd =>
      skip
      pure []
    | _ => return [← failIn .noEntry l.start .blockCollection start]
termination_by (fuel, 0)

/-- The entries of a sequence that is indented as the mapping around it. -/
def indentlessItems (fuel : Nat) : Build (List Node) :=
  match fuel with
  | 0 => pure [.lost]
  | fuel + 1 => do
    let some l ← peek | pure [.lost]
    match l.token with
    | .blockEntry =>
      skip
      let n ← nodeUnless fuel [.blockEntry, .key, .value, .blockEnd] true false l.stop
      if ← isCut then pure [n, .lost] else return n :: (← indentlessItems fuel)
    | _ => pure []
termination_by (fuel, 0)

/-- The entries of a block mapping. -/
def blockPairs (fuel : Nat) (start : Place) : Build (List (Node × Node)) :=
  match fuel with
  | 0 => pure [(.lost, .lost)]
  | fuel + 1 => do
    let some l ← peek | pure [(.lost, .lost)]
    match l.token with
    | .key =>
      skip
      let k ← nodeUnless fuel [.key, .value, .blockEnd] true true l.stop
      let v ← blockValue fuel
      if ← isCut then pure [(k, v), (.lost, .lost)] else return (k, v) :: (← blockPairs fuel start)
    | .blockEnd =>
      skip
      pure []
    | _ => return [(← failIn .noKey l.start .blockMapping start, .lost)]
termination_by (fuel, 0)

/-- The value behind a key of a block mapping. -/
def blockValue (fuel : Nat) : Build Node := do
  let some l ← peek | pure .lost
  match l.token with
  | .value =>
    skip
    nodeUnless fuel [.key, .value, .blockEnd] true true l.stop
  | _ => pure (absent l.start)
termination_by (fuel, 2)

/-- The entries of a flow sequence. -/
def flowItems (fuel : Nat) (start : Place) (first : Bool) : Build (List Node) :=
  match fuel with
  | 0 => pure [.lost]
  | fuel + 1 => do
    let some l ← peek | pure [.lost]
    if l.token = .flowSequenceEnd then
      skip
      pure []
    else if ¬ first ∧ l.token ≠ .flowEntry then
      return [← failIn .noCommaOrBracket l.start .flowSequence start]
    else
      if ¬ first then skip
      let some l ← peek | pure [.lost]
      match l.token with
      | .key =>
        skip
        let k ← nodeUnless fuel [.value, .flowEntry, .flowSequenceEnd] false false l.stop
        let v ← flowValue fuel .flowSequenceEnd
        let n := Node.mapping [(k, v)] l.start
        if ← isCut then pure [n, .lost] else return n :: (← flowItems fuel start false)
      | .flowSequenceEnd =>
        skip
        pure []
      | _ =>
        let n ← node fuel false false
        if ← isCut then pure [n, .lost] else return n :: (← flowItems fuel start false)
termination_by (fuel, 0)

/-- The value behind a key of a flow collection. -/
def flowValue (fuel : Nat) (closing : Token) : Build Node := do
  let some l ← peek | pure .lost
  match l.token with
  | .value =>
    skip
    let some l ← peek | pure .lost
    nodeUnless fuel [.flowEntry, closing] false false l.start
  | _ => pure (absent l.start)
termination_by (fuel, 2)

/-- The entries of a flow mapping. -/
def flowPairs (fuel : Nat) (start : Place) (first : Bool) : Build (List (Node × Node)) :=
  match fuel with
  | 0 => pure [(.lost, .lost)]
  | fuel + 1 => do
    let some l ← peek | pure [(.lost, .lost)]
    if l.token = .flowMappingEnd then
      skip
      pure []
    else if ¬ first ∧ l.token ≠ .flowEntry then
      return [(← failIn .noCommaOrBrace l.start .flowMapping start, .lost)]
    else
      if ¬ first then skip
      let some l ← peek | pure [(.lost, .lost)]
      match l.token with
      | .flowMappingEnd =>
        skip
        pure []
      | .key =>
        skip
        let some l ← peek | pure [(.lost, .lost)]
        let k ← nodeUnless fuel [.value, .flowEntry, .flowMappingEnd] false false l.start
        let v ← flowValue fuel .flowMappingEnd
        if ← isCut then pure [(k, v), (.lost, .lost)]
        else return (k, v) :: (← flowPairs fuel start false)
      | _ =>
        let k ← node fuel false false
        let some l ← peek | pure [(k, .lost)]
        let v := absent l.start
        return (k, v) :: (← flowPairs fuel start false)
termination_by (fuel, 0)

end

/-- Reads the directives in front of a document. -/
def directives : (fuel : Nat) → (version : Bool) → Build Unit
  | 0, _ => pure ()
  | fuel + 1, version => do
    let some l ← peek | pure ()
    match l.token with
    | .version major minor =>
      if version then
        let _ ← cutOff (.malformed ⟨.twoVersions, l.start, none, 0⟩)
      else if major ≠ 1 ∨ (minor ≠ 1 ∧ minor ≠ 2) then
        let _ ← cutOff (.malformed ⟨.wrongVersion, l.start, none, 0⟩)
      else
        skip
        directives fuel true
    | .handle name address =>
      if (← get).handles.any fun p => p.1 = name then
        let _ ← cutOff (.malformed ⟨.twoHandles, l.start, none, 0⟩)
      else
        modify fun b => { b with handles := (name, address) :: b.handles }
        skip
        directives fuel version
    | _ => pure ()

/-- Whether a token can only stand in front of a document or behind it. -/
def isBetween : Token → Bool
  | .version _ _ | .handle _ _ | .documentStart | .documentEnd | .textEnd => true
  | _ => false

/-- The first document of a text. -/
def document (fuel : Nat) : Build Node := do
  let some l ← peek | pure .lost
  match l.token with
  | .textEnd => pure (absent {})
  | .version _ _ | .handle _ _ | .documentStart =>
    directives fuel false
    let some l ← peek | pure .lost
    if l.token ≠ .documentStart then cutOff (.malformed ⟨.noDocumentStart, l.start, none, 0⟩)
    else
      skip
      let some l ← peek | pure .lost
      if isBetween l.token then pure (absent l.start) else node fuel true false
  | _ => node fuel true false

end Build

/-- A text that is to hold one document. -/
structure Document where
  root : Node
  /-- the nodes that were given names, with their numbers -/
  named : List (Nat × Node)
  cut : Option Cut
  /-- whether something follows behind the document -/
  more : Bool

/-- The document of a text. -/
def Document.ofText (text : String) : Document :=
  let (ls, broken) := lexemes text
  let (root, b) := (Build.document (4 * ls.length + 8)).run { lexemes := ls, broken }
  let rest := b.lexemes.dropWhile fun l => l.token = .documentEnd
  ⟨root, b.named, b.cut, (rest.head?.map Lexeme.token) ≠ some .textEnd⟩

end Yaml

end WireCall
