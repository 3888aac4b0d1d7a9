import WireCall.Bytes

/-!
# Double-precision numbers

A double is kept as its 64 bits: a sign, eleven bits of exponent and 52 bits of fraction. All
arithmetic that the formats need goes through exact rationals: a finite magnitude is a ratio of two
natural numbers (`Double.magnitude`), and `Double.round` returns the double nearest to a ratio, a
tie going to the even neighbour.
-/

namespace WireCall

/-- A double-precision number, by its bits. -/
structure Double where
  bits : BitVec 64
  deriving DecidableEq

namespace Double

/-! ## Parts -/

/-- The sign bit: whether the number is written with a minus sign. -/
def isNegative (x : Double) : Bool := x.bits.getLsbD 63

/-- The biased exponent. -/
def exponentField (x : Double) : Nat := x.bits.toNat / 0x10000000000000 % 0x800

/-- The fraction. -/
def fractionField (x : Double) : Nat := x.bits.toNat % 0x10000000000000

/-- Whether the number is neither infinite nor undefined. -/
def isFinite (x : Double) : Bool := x.exponentField < 2047

/-- Whether the number is zero, of either sign. -/
def isZero (x : Double) : Bool := x.bits.toNat % 0x8000000000000000 = 0

/-- Whether the number is infinite, of either sign. -/
def isInfinite (x : Double) : Bool := x.exponentField = 2047 && x.fractionField = 0

/-- The double of the given sign whose other bits spell `n`. -/
def ofParts (negative : Bool) (n : Nat) : Double :=
  ⟨BitVec.ofNat 64 ((if negative then 0x8000000000000000 else 0) + n)⟩

/-- The number with its sign flipped. -/
def negate (x : Double) : Double := ⟨x.bits ^^^ 0x8000000000000000⟩

/-- The same number without its sign. -/
def absolute (x : Double) : Double := ⟨BitVec.ofNat 64 (x.bits.toNat % 0x8000000000000000)⟩

/-- The significand `m` and the exponent `e + 1074` of the magnitude `m * 2 ^ e` of a finite
number. -/
def significand (x : Double) : Nat × Nat :=
  if x.exponentField = 0 then (x.fractionField, 0)
  else (x.fractionField + 0x10000000000000, x.exponentField - 1)

/-- The magnitude of a finite number as a ratio of natural numbers. -/
def magnitude (x : Double) : Nat × Nat :=
  let (m, e) := x.significand
  if e < 1074 then (m, Nat.pow 2 (1074 - e)) else (m * Nat.pow 2 (e - 1074), 1)

/-! ## Rounding -/

/-- The quotient rounded to the nearest natural number, a tie going to the even one. -/
def divideEven (num den : Nat) : Nat :=
  let q := num / den
  let r := num % den
  if 2 * r < den then q
  else if 2 * r > den then q + 1
  else if q % 2 = 0 then q else q + 1

/-- The greatest `e` with `2 ^ e * den ≤ num`, or zero, shifted up by 1074 so that every exponent
of a subnormal number is zero. -/
def scaleOf (num den : Nat) : Nat :=
  let guess := num.log2 + 1074 - den.log2
  let scaled := num * Nat.pow 2 1074
  if Nat.pow 2 guess * den ≤ scaled then guess
  else guess - 1

/-- The double nearest to the ratio, a tie going to the even neighbour; what is too large becomes
infinite. -/
def round (num den : Nat) : Double :=
  let scale := scaleOf num den
  -- the last place of the result is worth `2 ^ (last - 1074)`
  let last := scale - 52
  let m := divideEven (num * Nat.pow 2 1074) (den * Nat.pow 2 last)
  -- a significand that rounds up to `2 ^ 53` carries into the exponent by itself
  let spelled := if m < 0x10000000000000 then m else last * 0x10000000000000 + m
  ofParts false (min spelled 0x7ff0000000000000)

/-- The double nearest to a natural number. -/
def ofNat (n : Nat) : Double := round n 1

/-- The product of two finite magnitudes, rounded. -/
def mulMagnitude (x y : Double) : Double :=
  let (a, b) := x.magnitude
  let (c, d) := y.magnitude
  round (a * c) (b * d)

/-- The quotient of two finite magnitudes, the second of them positive, rounded. -/
def divMagnitude (x y : Double) : Double :=
  let (a, b) := x.magnitude
  let (c, d) := y.magnitude
  round (a * d) (b * c)

/-- The double nearest to a power of ten. -/
def tenPower (k : Nat) : Double := round (Nat.pow 10 k) 1

end Double

end WireCall
