import WireCall.Bytes
import WireCall.Double.Shortest

/-!
# Socket addresses

A socket address is an internet address of version 4 or 6 with a port. Both have one canonical
text, in which the longest run of zero groups of version 6 is left out; reading also takes the other
spellings of it.
-/

namespace WireCall

/-- The address of a socket. -/
inductive Address where
  | v4 (octets : List Nat) (port : Nat)
  | v6 (groups : List Nat) (scope port : Nat)
  deriving DecidableEq, Repr

namespace Address

/-- The port where none is given. -/
def standardPort : Nat := 7411

/-- The address where none is given. -/
def standard : Address := .v4 [127, 0, 0, 1] standardPort

/-! ## Reading -/

/-- Reads from the front of a text: what was read and what follows. -/
abbrev Read (α : Type) := List Char → Option (α × List Char)

/-- The value of a digit. -/
def digit? (base : Nat) (c : Char) : Option Nat :=
  let v :=
    if c.isDigit then c.toNat - '0'.toNat
    else if 'a' ≤ c ∧ c ≤ 'f' then c.toNat - 'a'.toNat + 10
    else if 'A' ≤ c ∧ c ≤ 'F' then c.toNat - 'A'.toNat + 10
    else base
  if v < base then some v else none

/-- A number below a limit, of at most so many digits if there is such a bound. -/
def number (base limit : Nat) (most : Option Nat) (zeros : Bool) : Read Nat := fun cs =>
  let (digits, rest) := cs.span fun c => (digit? base c).isSome
  let n := digits.foldl (fun n c => n * base + (digit? base c).getD 0) 0
  let isLong := match most with
    | some m => m < digits.length
    | none => false
  let isPadded := digits.head? = some '0' && 1 < digits.length
  if digits.isEmpty || isLong || limit ≤ n || (!zeros && isPadded) then none else some (n, rest)

/-- One given character. -/
def char (c : Char) : Read Unit
  | [] => none
  | d :: rest => if c = d then some ((), rest) else none

/-- An address of version 4: four numbers with dots between them. -/
def octets : Read (List Nat) := fun cs => do
  let octet := number 10 256 (some 3) false
  let (a, cs) ← octet cs
  let (_, cs) ← char '.' cs
  let (b, cs) ← octet cs
  let (_, cs) ← char '.' cs
  let (c, cs) ← octet cs
  let (_, cs) ← char '.' cs
  let (d, cs) ← octet cs
  pure ([a, b, c, d], cs)

/-- What follows the colon between two groups; in front of the first one there is none. -/
def separated {α : Type} (first : Bool) (read : Read α) : Read α := fun cs =>
  if first then read cs
  else do
    let (_, cs) ← char ':' cs
    read cs

/-- At most so many groups with colons between them, the last two of which may be written as an
address of version 4. The second part of the answer says whether they were. -/
def groups : (most : Nat) → (first : Bool) → List Char → List Nat × Bool × List Char
  | 0, _, cs => ([], false, cs)
  | most + 1, first, cs =>
    match (if most = 0 then none else separated first octets cs) with
    | some ([a, b, c, d], rest) => ([a * 256 + b, c * 256 + d], true, rest)
    | _ =>
      match separated first (number 16 65536 (some 4) true) cs with
      | none => ([], false, cs)
      | some (g, rest) =>
        let (gs, embedded, rest) := groups most false rest
        (g :: gs, embedded, rest)

/-- An address of version 6: eight groups, of which a double colon leaves out one or more that are
zero. -/
def groupsV6 : Read (List Nat) := fun cs =>
  let (front, embedded, rest) := groups 8 true cs
  if front.length = 8 then some (front, rest)
  else if embedded then none
  else do
    let (_, rest) ← char ':' rest
    let (_, rest) ← char ':' rest
    let (back, _, rest) := groups (7 - front.length) true rest
    pure (front ++ List.replicate (8 - front.length - back.length) 0 ++ back, rest)

/-- A colon and a port. -/
def port : Read Nat := fun cs => do
  let (_, cs) ← char ':' cs
  number 10 65536 none true cs

/-- A percent sign and the number of a scope; without it the scope is zero. -/
def scope (cs : List Char) : Nat × List Char :=
  match char '%' cs with
  | none => (0, cs)
  | some (_, rest) => ((number 10 0x100000000 none true rest).getD (0, cs))

/-- A socket address of version 4. -/
def readV4 : Read Address := fun cs => do
  let (os, cs) ← octets cs
  let (p, cs) ← port cs
  pure (.v4 os p, cs)

/-- A socket address of version 6. -/
def readV6 : Read Address := fun cs => do
  let (_, cs) ← char '[' cs
  let (gs, cs) ← groupsV6 cs
  let (s, cs) := scope cs
  let (_, cs) ← char ']' cs
  let (p, cs) ← port cs
  pure (.v6 gs s p, cs)

/-- The address that a text spells. -/
def parse? (text : String) : Option Address :=
  match (readV4 text.toList).or (readV6 text.toList) with
  | some (a, []) => some a
  | _ => none

/-! ## Writing -/

/-- The text of a number. -/
def numberText (base n : Nat) : String := String.ofList (Nat.toDigits base n)

/-- The text of an address of version 4. -/
def octetsText (os : List Nat) : String := String.intercalate "." (os.map (numberText 10))

/-- Groups with colons between them. -/
def groupsText (gs : List Nat) : String := String.intercalate ":" (gs.map (numberText 16))

/-- The number of zero groups in front. -/
def leadingZeros (gs : List Nat) : Nat := (gs.takeWhile (· = 0)).length

/-- Where the longest run of zero groups starts, the first one of several, and how long it is. -/
def longestRun (gs : List Nat) : Nat × Nat :=
  (List.range gs.length).foldl
    (fun best start =>
      let n := leadingZeros (gs.drop start)
      if best.2 < n then (start, n) else best)
    (0, 0)

/-- The text of an address of version 6. -/
def groupsV6Text (gs : List Nat) : String :=
  match gs with
  | [0, 0, 0, 0, 0, 0xffff, a, b] =>
    "::ffff:" ++ octetsText [a / 256, a % 256, b / 256, b % 256]
  | _ =>
    let (start, n) := longestRun gs
    if 1 < n then groupsText (gs.take start) ++ "::" ++ groupsText (gs.drop (start + n))
    else groupsText gs

/-- The text of an address. -/
def text : Address → String
  | .v4 os port => octetsText os ++ ":" ++ numberText 10 port
  | .v6 gs scope port =>
    "[" ++ groupsV6Text gs ++ (if scope = 0 then "" else "%" ++ numberText 10 scope) ++ "]:"
      ++ numberText 10 port

end Address

end WireCall
