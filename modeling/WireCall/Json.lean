import WireCall.Double
import WireCall.Mapping

/-!
# JSON values

The values that a JSON text can denote. Integers that fit 64 bits are kept apart from other
numbers, and the members of an object are kept in the order of their names.
-/

namespace WireCall

/-- A number in a JSON text. -/
inductive Numeral where
  /-- an integer from zero on -/
  | natural (n : Nat)
  /-- an integer below zero -/
  | negative (i : Int)
  /-- any other number -/
  | double (x : Double)
  deriving DecidableEq

/-- A JSON value. -/
inductive Json where
  | null
  | bool (b : Bool)
  | number (n : Numeral)
  | text (s : String)
  | array (items : List Json)
  | object (members : List (String × Json))
  deriving Inhabited

namespace Json

/-- An integer as a JSON value. -/
def ofInt (i : Int) : Json :=
  .number (if i < 0 then .negative i else .natural i.toNat)

/-- A natural number as a JSON value. -/
def ofNat (n : Nat) : Json := .number (.natural n)

/-- An object with the given members; of two with the same name the later one counts. -/
def ofMembers (members : List (String × Json)) : Json :=
  .object (members.foldl (fun acc p => insertEntry p.1 p.2 acc) [])

/-- The member of an object with the given name. -/
def get? : Json → String → Option Json
  | .object members, name => (members.find? fun p => p.1 = name).map Prod.snd
  | _, _ => none

end Json

end WireCall
