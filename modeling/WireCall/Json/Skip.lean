import WireCall.Json.Quoted

/-!
# Passing over a JSON value

The value of a member that nobody asks for is passed over without being read. A pushdown automaton
looks at one byte at a time: its mode says what may come next, and its stack holds the lists and
objects that are still open. There is no limit on how deep they nest.
-/

namespace WireCall

namespace Json

namespace Skip

/-- A list or an object that is still open. -/
inductive Bracket where
  | list
  | object
  deriving DecidableEq, Repr

/-- Whether the byte closes the bracket. -/
def Bracket.isClose (b : Bracket) (c : UInt8) : Bool :=
  match b with
  | .list => c = 0x5d
  | .object => c = 0x7d

/-- What may come next. -/
inductive Mode where
  /-- a value -/
  | value
  /-- the first element or member, or the end -/
  | opened
  /-- a separator or the end -/
  | after
  /-- the name of a member -/
  | name
  /-- the colon behind a name -/
  | colon
  /-- the letters that are left of a literal -/
  | literal (left : Bytes)
  /-- a number behind its minus sign -/
  | minus
  /-- a number behind a leading zero -/
  | zero
  /-- the digits before the point -/
  | integer
  /-- the first digit behind the point -/
  | point
  /-- more digits behind the point -/
  | fraction
  /-- a number behind its exponent letter -/
  | exponent
  /-- the first digit of the exponent -/
  | exponentSign
  /-- more digits of the exponent -/
  | exponentDigits
  /-- a text, which may be the name of a member -/
  | text (isName : Bool)
  /-- a text behind a backslash -/
  | escape (isName : Bool)
  /-- the hexadecimal digits that are left of an escape, and whether those before were valid -/
  | hex (isName : Bool) (left : Nat) (valid : Bool)

/-- What one byte does. -/
inductive Step where
  /-- the byte is taken and the value goes on -/
  | go (mode : Mode) (stack : List Bracket)
  /-- the byte is taken and ends the value -/
  | done
  /-- the value has ended before the byte -/
  | doneBefore
  /-- the byte is taken and does not fit -/
  | fail (cause : Cause)
  /-- the byte does not fit and is left -/
  | failBefore (cause : Cause)

/-- The step when a value inside the open brackets ends with the byte. -/
def complete : List Bracket → Step
  | [] => .done
  | stack => .go .after stack

/-- A step in front of a value. -/
def startValue (stack : List Bracket) (c : UInt8) : Step :=
  if isBlank c then .go .value stack
  else if c = 0x6e then .go (.literal [0x75, 0x6c, 0x6c]) stack
  else if c = 0x74 then .go (.literal [0x72, 0x75, 0x65]) stack
  else if c = 0x66 then .go (.literal [0x61, 0x6c, 0x73, 0x65]) stack
  else if c = 0x2d then .go .minus stack
  else if c = 0x30 then .go .zero stack
  else if isDigit c then .go .integer stack
  else if c = 0x22 then .go (.text false) stack
  else if c = 0x5b then .go .opened (.list :: stack)
  else if c = 0x7b then .go .opened (.object :: stack)
  else .fail .expectedValue

/-- A step in front of the name of a member. -/
def startName (mode : Mode) (stack : List Bracket) (c : UInt8) : Step :=
  if isBlank c then .go mode stack
  else if c = 0x22 then .go (.text true) stack
  else .fail .keyMustBeText

/-- A step behind a value. -/
def afterValue (stack : List Bracket) (c : UInt8) : Step :=
  match stack with
  | [] => .doneBefore
  | top :: below =>
    if isBlank c then .go .after stack
    else if top.isClose c then complete below
    else if c = 0x2c then
      match top with
      | .list => .go .value stack
      | .object => .go .name stack
    else
      match top with
      | .list => .fail .expectedListCommaOrEnd
      | .object => .fail .expectedObjectCommaOrEnd

/-- The step that one byte makes. -/
def step (mode : Mode) (stack : List Bracket) (c : UInt8) : Step :=
  match mode with
  | .value => startValue stack c
  | .opened =>
    match stack with
    | [] => .doneBefore
    | top :: below =>
      if isBlank c then .go .opened stack
      else if top.isClose c then complete below
      else
        match top with
        | .list => startValue stack c
        | .object => startName .opened stack c
  | .after => afterValue stack c
  | .name => startName .name stack c
  | .colon =>
    if isBlank c then .go .colon stack
    else if c = 0x3a then .go .value stack
    else .fail .expectedColon
  | .literal [] => .doneBefore
  | .literal (l :: left) =>
    if c = l then
      match left with
      | [] => complete stack
      | _ => .go (.literal left) stack
    else .fail .expectedIdent
  | .minus =>
    if c = 0x30 then .go .zero stack
    else if isDigit c then .go .integer stack
    else .fail .invalidNumber
  | .zero =>
    if isDigit c then .fail .invalidNumber
    else if c = 0x2e then .go .point stack
    else if c = 0x65 || c = 0x45 then .go .exponent stack
    else afterValue stack c
  | .integer =>
    if isDigit c then .go .integer stack
    else if c = 0x2e then .go .point stack
    else if c = 0x65 || c = 0x45 then .go .exponent stack
    else afterValue stack c
  | .point => if isDigit c then .go .fraction stack else .fail .invalidNumber
  | .fraction =>
    if isDigit c then .go .fraction stack
    else if c = 0x65 || c = 0x45 then .go .exponent stack
    else afterValue stack c
  | .exponent =>
    if c = 0x2b || c = 0x2d then .go .exponentSign stack
    else if isDigit c then .go .exponentDigits stack
    else .fail .invalidNumber
  | .exponentSign => if isDigit c then .go .exponentDigits stack else .fail .invalidNumber
  | .exponentDigits => if isDigit c then .go .exponentDigits stack else afterValue stack c
  | .text isName =>
    if c = 0x22 then (if isName then .go .colon stack else complete stack)
    else if c = 0x5c then .go (.escape isName) stack
    else if c < 0x20 then .failBefore .controlCharacter
    else .go (.text isName) stack
  | .escape isName =>
    if c = 0x75 then .go (.hex isName 4 true) stack
    else if (escape? c).isSome then .go (.text isName) stack
    else .fail .invalidEscape
  | .hex isName left valid =>
    let valid := valid && (hexValue? c).isSome
    if left ≤ 1 then (if valid then .go (.text isName) stack else .fail .invalidEscape)
    else .go (.hex isName (left - 1) valid) stack

/-- What is missing when the text ends inside the brackets. -/
def endInside : List Bracket → Except Failure Bytes
  | [] => .ok []
  | .list :: _ => .error ⟨.endInList, [], true⟩
  | .object :: _ => .error ⟨.endInObject, [], true⟩

/-- The outcome when the text ends. -/
def finish (mode : Mode) (stack : List Bracket) : Except Failure Bytes :=
  match mode with
  | .value => .error ⟨.endInValue, [], true⟩
  | .opened | .after => endInside stack
  | .name | .colon => .error ⟨.endInObject, [], true⟩
  | .literal _ => .error ⟨.endInValue, [], true⟩
  | .minus | .point | .exponent | .exponentSign => .error ⟨.invalidNumber, [], true⟩
  | .zero | .integer | .fraction | .exponentDigits => endInside stack
  | .text _ | .escape _ | .hex _ _ _ => .error ⟨.endInText, [], true⟩

/-- Runs the automaton and gives the text behind the value. -/
def run (mode : Mode) (stack : List Bracket) : Bytes → Except Failure Bytes
  | [] => finish mode stack
  | c :: rest =>
    match step mode stack c with
    | .go mode stack => run mode stack rest
    | .done => .ok rest
    | .doneBefore => .ok (c :: rest)
    | .fail cause => .error ⟨cause, rest, true⟩
    | .failBefore cause => .error ⟨cause, c :: rest, true⟩

end Skip

/-- Passes over one value of any kind. -/
def Scan.skipValue : Scan Unit := fun s =>
  match Skip.run .value [] s with
  | .ok rest => .ok ((), rest)
  | .error f => .error f

end Json

end WireCall
