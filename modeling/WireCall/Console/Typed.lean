import WireCall.Bytes
import WireCall.Text.Blank

/-!
# Commands that are typed in

A line is trimmed; its first word says what is wanted, in capitals or not, and the rest of it, again
trimmed, is what that is wanted of. A first word with a dot in it is no command but a method to be
called, as if `call` stood in front of it.
-/

namespace WireCall

namespace Console

/-- Where the argument of a call comes from. -/
inductive Argument where
  /-- none is given -/
  | absent
  /-- the text of a JSON value -/
  | inline (text : String)
  /-- the name of a file that holds such a text -/
  | file (path : String)
  deriving DecidableEq, Repr

/-- Why a number of calls cannot be read. -/
inductive CountError where
  | invalidDigit
  | tooLarge
  deriving DecidableEq, Repr

/-- A command that is typed in. -/
inductive Typed where
  | help
  | leave
  | pending
  | bench (n : Except CountError Nat)
  | call (method : String) (argument : Argument)
  /-- a call without its argument -/
  | incomplete
  | unknown (word : String)

/-- The wording of an error. -/
def CountError.message : CountError → String
  | .invalidDigit => "invalid digit found in string"
  | .tooLarge => "number too large to fit in target type"

/-- The argument that a text stands for: after an at sign it names a file. -/
def Argument.ofText (cs : List Char) : Argument :=
  match cs with
  | '@' :: path => .file (String.ofList path)
  | _ => .inline (String.ofList cs)

namespace Typed

/-- Reads the digits of a number of 32 bits, from left to right up to the first fault. -/
def readDigits (n : Nat) : List Char → Except CountError Nat
  | [] => .ok n
  | c :: rest =>
    if !c.isDigit then .error .invalidDigit
    else
      let n := n * 10 + (c.toNat - '0'.toNat)
      if 0x100000000 ≤ n then .error .tooLarge else readDigits n rest

/-- The number of calls that a text spells, at most with a plus sign. -/
def readCount (cs : List Char) : Except CountError Nat :=
  match cs with
  | ['+'] => .error .invalidDigit
  | '+' :: digits => readDigits 0 digits
  | digits => readDigits 0 digits

/-- The argument that is typed in behind a method. -/
def argument (cs : List Char) : Argument :=
  match Text.trimmed cs with
  | [] => .absent
  | cs => .ofText cs

/-- A call of the method that the text starts with. -/
def callOf (cs : List Char) : Typed :=
  match Text.splitBlank? cs with
  | some (method, rest) => .call (String.ofList method) (argument rest)
  | none => .incomplete

/-- The command that a word stands for, if it is one, together with the rest of the line. No letter
outside ASCII has one of the letters of a command as its small form. -/
def builtin? (word rest : List Char) : Option Typed :=
  match String.ofList (word.map Char.toLower) with
  | "help" | "?" => some .help
  | "quit" | "exit" | "q" => some .leave
  | "pending" => some .pending
  | "bench" => some (.bench (if rest.isEmpty then .ok 5 else readCount rest))
  | "call" | "c" => some (callOf rest)
  | _ => none

/-- The command made of the first word of a line and the rest of it. -/
def ofWords (word rest : List Char) : Typed :=
  match builtin? word rest with
  | some command => command
  | none =>
    if '.' ∈ word then .call (String.ofList word) (argument rest)
    else .unknown (String.ofList word)

/-- The command that a line holds, unless the line is blank. -/
def ofLine? (line : String) : Option Typed :=
  match Text.trimmed line.toList with
  | [] => none
  | cs =>
    match Text.splitBlank? cs with
    | some (word, rest) => some (ofWords word (Text.trimmed rest))
    | none => some (ofWords cs [])

end Typed

end Console

end WireCall
