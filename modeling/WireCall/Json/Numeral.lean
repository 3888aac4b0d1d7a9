import WireCall.Json.Scan
import WireCall.Json

/-!
# Numbers in a JSON text

A number without point and exponent that fits 64 bits is read exactly. Every other number is read
as a double: its first digits, as many as fit 64 bits, give a significand, which is rounded to a
double and then multiplied with or divided by the power of ten that is left, rounding again.
-/

namespace WireCall

namespace Json

/-! ## Scaling -/

/-- The double `x / 10 ^ k`, in steps of at most `10 ^ 308`. -/
def shrink (x : Double) (k : Nat) : Double :=
  if k ≤ 308 then x.divMagnitude (Double.tenPower k)
  else if x.isZero then x
  else shrink (x.divMagnitude (Double.tenPower 308)) (k - 308)
termination_by k

/-- The double with the given sign, significand and power of ten, or none if it is too large. -/
def scaled? (positive : Bool) (significand : Nat) (exponent : Int) : Option Double :=
  let x := Double.ofNat significand
  let y :=
    if 0 ≤ exponent then
      if exponent ≤ 308 then x.mulMagnitude (Double.tenPower exponent.toNat)
      else if x.isZero then x
      else Double.round (Nat.pow 2 1024) 1
    else shrink x (-exponent).toNat
  if y.isInfinite then none
  else some (if positive then y else y.negate)

/-! ## Digits -/

/-- Digits taken from the front of a text while the number they spell stays below `bound`. -/
structure Digits where
  value : Nat
  /-- how many digits were taken -/
  count : Nat
  rest : Bytes

/-- Takes digits while the number they continue stays below `bound`. -/
def takeDigits (bound : Nat) (value count : Nat) : Bytes → Digits
  | [] => ⟨value, count, []⟩
  | c :: rest =>
    if isDigit c then
      let next := value * 10 + digitValue c
      if next < bound then takeDigits bound next (count + 1) rest
      else ⟨value, count, c :: rest⟩
    else ⟨value, count, c :: rest⟩

/-- Whether the text goes on with a digit. -/
def startsWithDigit (s : Bytes) : Bool :=
  match s with
  | c :: _ => isDigit c
  | [] => false

/-- The digits that fit a significand. -/
def takeSignificand (value count : Nat) (s : Bytes) : Digits :=
  takeDigits 0x10000000000000000 value count s

/-! ## Numbers -/

namespace Scan

/-- The double with the given parts, at the current place. -/
def double (positive : Bool) (significand : Nat) (exponent : Int) : Scan Double := fun s =>
  match scaled? positive significand exponent with
  | some x => .ok (x, s)
  | none => .error ⟨.numberOutOfRange, s, true⟩

/-- Passes the sign of an exponent and tells whether the exponent is positive. -/
def exponentSign : Scan Bool := fun s =>
  match s with
  | 0x2b :: rest => .ok (true, rest)
  | 0x2d :: rest => .ok (false, rest)
  | _ => .ok (true, s)

/-- Reads the exponent behind its letter and gives the double. -/
def exponent (positive : Bool) (significand : Nat) (start : Int) : Scan Double := do
  let up ← exponentSign
  fun s =>
    match s with
    | [] => .error ⟨.endInValue, [], true⟩
    | c :: rest =>
      if isDigit c then
        let d := takeDigits 0x80000000 (digitValue c) 0 rest
        if startsWithDigit d.rest then
          -- an exponent beyond all bounds: too large, or nothing at all is left of the number
          if significand ≠ 0 ∧ up then .error ⟨.numberOutOfRange, d.rest.tail, true⟩
          else .ok (Double.ofParts (!positive) 0, d.rest.dropWhile isDigit)
        else
          double positive significand (if up then start + d.value else start - d.value) d.rest
      else .error ⟨.invalidNumber, rest, true⟩

/-- Goes on with an exponent if there is one. -/
def maybeExponent (positive : Bool) (significand : Nat) (start : Int) : Scan Double := fun s =>
  match s with
  | c :: rest =>
    if c = 0x65 || c = 0x45 then exponent positive significand start rest
    else double positive significand start s
  | [] => double positive significand start s

/-- Reads the digits behind the point and gives the double. -/
def fraction (positive : Bool) (significand : Nat) (start : Int) : Scan Double := fun s =>
  let d := takeSignificand significand 0 s
  if startsWithDigit d.rest then
    -- digits beyond the significand do not count
    maybeExponent positive d.value (start - d.count) (d.rest.dropWhile isDigit)
  else if d.count = 0 then
    match d.rest with
    | [] => .error ⟨.endInValue, [], true⟩
    | _ :: rest => .error ⟨.invalidNumber, rest, true⟩
  else maybeExponent positive d.value (start - d.count) d.rest

/-- The integer with the given sign and digits. -/
def integerOf (positive : Bool) (significand : Nat) : Numeral :=
  if positive then .natural significand
  else if significand = 0 ∨ 0x8000000000000000 < significand then
    .double (Double.ofNat significand).negate
  else .negative (-(significand : Int))

/-- Goes on behind the digits before the point. -/
def afterInteger (positive : Bool) (significand : Nat) : Scan Numeral := fun s =>
  match s with
  | c :: rest =>
    if c = 0x2e then (.double <$> fraction positive significand 0) rest
    else if c = 0x65 || c = 0x45 then (.double <$> exponent positive significand 0) rest
    else .ok (integerOf positive significand, s)
  | [] => .ok (integerOf positive significand, s)

/-- Goes on behind the digits that fit a significand, where more digits follow. -/
def longInteger (positive : Bool) (significand : Nat) : Scan Numeral := fun s =>
  let dropped := s.takeWhile isDigit
  match s.dropWhile isDigit with
  | 0x2e :: rest => (.double <$> fraction positive significand dropped.length) rest
  | rest => (.double <$> maybeExponent positive significand dropped.length) rest

/-- Reads a number behind its sign. -/
def numeral (positive : Bool) : Scan Numeral := fun s =>
  match s with
  | [] => .error ⟨.endInValue, [], true⟩
  | c :: rest =>
    if c = 0x30 then
      if startsWithDigit rest then .error ⟨.invalidNumber, rest.tail, true⟩
      else afterInteger positive 0 rest
    else if isDigit c then
      let d := takeSignificand (digitValue c) 0 rest
      if startsWithDigit d.rest then longInteger positive d.value d.rest
      else afterInteger positive d.value d.rest
    else .error ⟨.invalidNumber, rest, true⟩

end Scan

end Json

end WireCall
