import WireCall.Double.Shortest
import WireCall.Text.Quoted
import WireCall.Yaml.Node

/-!
# What the scalars of a YAML text stand for

A scalar that is quoted or a block is a text. A plain one can also stand for nothing, for a truth
value or for a number, unless a tag says what it is. Integers can be written in hexadecimal, octal
and binary; decimal digits behind a zero are no number.
-/

namespace WireCall

namespace Yaml

/-- What a scalar stands for. -/
inductive Meaning where
  | null
  | bool (b : Bool)
  | integer (i : Int)
  | double (x : Double)
  | text (s : String)

/-! ## Numbers -/

/-- The value of a digit in a base up to 16. -/
def digit? (base : Nat) (c : Char) : Option Nat :=
  (hexDigit? c).filter (· < base)

/-- The number that some digits spell, at least one. -/
def digits? (base : Nat) (cs : List Char) : Option Nat :=
  if cs.isEmpty then none
  else cs.foldlM (fun n c => (digit? base c).map (n * base + ·)) 0

/-- The base that a mark in front of a number gives, and what is behind it. -/
def baseMark? : List Char → Option (Nat × List Char)
  | '0' :: 'x' :: rest => some (16, rest)
  | '0' :: 'o' :: rest => some (8, rest)
  | '0' :: 'b' :: rest => some (2, rest)
  | _ => none

/-- Whether decimal digits stand behind a zero, which makes no number. -/
def hasLeadingZero (cs : List Char) : Bool :=
  match cs with
  | '0' :: rest => !rest.isEmpty && rest.all Char.isDigit
  | _ => false

/-- The number that a word without a sign spells. -/
def magnitude? (cs : List Char) : Option Nat :=
  match baseMark? cs with
  | some (base, rest) => digits? base rest
  | none => if hasLeadingZero cs then none else digits? 10 cs

/-- The number from zero on that a word spells, at most with a plus sign. -/
def natural? (cs : List Char) : Option Nat :=
  match cs with
  | '+' :: rest => magnitude? rest
  | _ => magnitude? cs

/-- The integer that a word spells. -/
def integer? (cs : List Char) : Option Int :=
  match cs with
  | '-' :: rest => (magnitude? rest).map fun n => -(n : Int)
  | _ => (natural? cs).map fun n => (n : Int)

/-- The exponent at the end of a decimal number. -/
def exponent? : List Char → Option Int
  | [] => some 0
  | c :: rest =>
    if c = 'e' ∨ c = 'E' then
      match rest with
      | '-' :: ds => (digits? 10 ds).map fun n => -(n : Int)
      | '+' :: ds => (digits? 10 ds).map fun n => (n : Int)
      | ds => (digits? 10 ds).map fun n => (n : Int)
    else none

/-- The double nearest to `n` times a power of ten. -/
def scaled (n : Nat) (e : Int) : Double :=
  if n = 0 then Double.round 0 1
  -- outside of these bounds the result is zero or infinite, however many digits there are
  else if 400 < e then Double.round (Nat.pow 10 400) 1
  else if e < -400 - (Nat.log2 n : Int) then Double.round 0 1
  else if 0 ≤ e then Double.round (n * Nat.pow 10 e.toNat) 1
  else Double.round n (Nat.pow 10 (-e).toNat)

/-- The double that digits with a point and an exponent spell. -/
def decimal? (cs : List Char) : Option Double := do
  let (whole, rest) := cs.span Char.isDigit
  let (fraction, rest) :=
    match rest with
    | '.' :: rest => rest.span Char.isDigit
    | _ => ([], rest)
  let n ← digits? 10 (whole ++ fraction)
  let e ← exponent? rest
  pure (scaled n (e - fraction.length))

/-- The double that a word spells. -/
def double? (cs : List Char) : Option Double :=
  let infinity := Double.ofParts false 0x7ff0000000000000
  let isInfinity (cs : List Char) : Bool := [".inf", ".Inf", ".INF"].contains (String.ofList cs)
  let (negative, rest) :=
    match cs with
    | '-' :: rest => (true, rest)
    | '+' :: rest => (false, rest)
    | _ => (false, cs)
  if isInfinity rest then some (if negative then infinity.negate else infinity)
  else if [".nan", ".NaN", ".NAN"].contains (String.ofList cs) then
    some (Double.ofParts false 0x7ff8000000000000)
  else
    match decimal? rest with
    | some x =>
      if hasLeadingZero rest ∨ ¬ x.isFinite then none
      else some (if negative then x.negate else x)
    | none => none

/-! ## Words -/

/-- Whether a word stands for nothing. -/
def isNull (s : String) : Bool := ["null", "Null", "NULL", "~"].contains s

/-- The truth value that a word stands for. -/
def bool? (s : String) : Option Bool :=
  if ["true", "True", "TRUE"].contains s then some true
  else if ["false", "False", "FALSE"].contains s then some false
  else none

/-- The integers that are told apart from other numbers. -/
def isWide (i : Int) : Bool := i < -(Nat.pow 2 127 : Int) || (Nat.pow 2 128 : Int) ≤ i

/-- The integer that a word stands for. -/
def word? (s : String) : Option Int := (integer? s.toList).filter fun i => !isWide i

/-- What a plain word stands for. -/
def meaning (s : String) : Meaning :=
  if s.isEmpty ∨ isNull s then .null
  else
    match bool? s, word? s, double? s.toList with
    | some b, _, _ => .bool b
    | none, some i, _ => .integer i
    | none, none, some x => .double x
    | none, none, none => .text s

/-! ## Descriptions -/

/-- A double as it is told. -/
def doubleText (x : Double) : String :=
  if x.isFinite then String.ofList x.positionalText
  else if x.isInfinite then (if x.isNegative then "-inf" else "inf")
  else "NaN"

/-- What was found, as it is told. -/
def Meaning.describe : Meaning → String
  | .null => "unit value"
  | .bool b => "boolean \x60" ++ toString b ++ "\x60"
  | .integer i =>
    "integer \x60" ++ toString i ++ "\x60"
      ++ (if 0x10000000000000000 ≤ i then " as u128"
        else if i < -0x8000000000000000 then " as i128"
        else "")
  | .double x => "floating point \x60" ++ doubleText x ++ "\x60"
  | .text s => "string " ++ Text.quoted s

/-- The address in front of the tags that every text can use. -/
def tagBase : String := "tag:yaml.org,2002:"

/-- A scalar where something else was wanted, as it is told. A tag makes a claim on the text, which
may not hold; then that is told instead. -/
def scalarMisfit (s : String) (style : Style) (tag : Option String) (expected : String) : String :=
  let wrongType (m : Meaning) : String :=
    "invalid type: " ++ m.describe ++ ", expected " ++ expected
  let claim (m : Option Meaning) (wanted : String) : String :=
    match m with
    | some m => wrongType m
    | none => "invalid value: string " ++ Text.quoted s ++ ", expected " ++ wanted
  let untagged := if style = .plain then wrongType (meaning s) else wrongType (.text s)
  match tag with
  | none => untagged
  | some t =>
    if t = tagBase ++ "bool" then claim ((bool? s).map Meaning.bool) "a boolean"
    else if t = tagBase ++ "int" then claim ((word? s).map Meaning.integer) "an integer"
    else if t = tagBase ++ "float" then claim ((double? s.toList).map Meaning.double) "a float"
    else if t = tagBase ++ "null" then claim (if isNull s then some .null else none) "null"
    else if t.startsWith "!" then untagged
    else wrongType (.text s)

end Yaml

end WireCall
