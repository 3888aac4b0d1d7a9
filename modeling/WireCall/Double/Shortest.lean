import WireCall.Double

/-!
# The shortest decimal of a double

`Double.shortest` finds the decimal with the fewest digits that reads back as the given double; of
two such decimals it takes the one nearer to the double, and of two equally near the one with the
even last digit. A decimal reads back exactly if it lies between the two midpoints towards the
neighbouring doubles, the midpoints included where the significand is even.

`Double.decimalText` writes that decimal: without an exponent from `0.00001` up to sixteen digits
before the point, and with one beyond.
-/

namespace WireCall

namespace Double

/-- A positive decimal `digits * 10 ^ exponent`. -/
structure Decimal where
  digits : Nat
  exponent : Int
  deriving DecidableEq, Repr

/-- The ratio `n * 10 ^ e`. -/
def Decimal.ratio (d : Decimal) : Nat × Nat :=
  if 0 ≤ d.exponent then (d.digits * Nat.pow 10 d.exponent.toNat, 1)
  else (d.digits, Nat.pow 10 (-d.exponent).toNat)

/-- The decimal without zeros at its end. -/
def Decimal.trimmed (d : Decimal) : Decimal :=
  if h : d.digits ≠ 0 ∧ d.digits % 10 = 0 then
    Decimal.trimmed ⟨d.digits / 10, d.exponent + 1⟩
  else d
termination_by d.digits
decreasing_by omega

/-- The range of ratios that round to a finite positive double: both ends over one denominator,
and whether the ends belong to it. -/
structure Interval where
  low : Nat
  high : Nat
  den : Nat
  closed : Bool

/-- The ratios that round to the magnitude of a double. -/
def interval (x : Double) : Interval :=
  let (m, e) := x.significand
  -- below a power of two the neighbour is only half as far away
  let below := if m = 0x10000000000000 ∧ 0 < e then 1 else 2
  let (up, den) := if e < 1074 then (1, Nat.pow 2 (1074 - e)) else (Nat.pow 2 (e - 1074), 1)
  ⟨(4 * m - below) * up, (4 * m + 2) * up, 4 * den, m % 2 = 0⟩

/-- Whether a decimal lies in the interval. -/
def Interval.holds (i : Interval) (d : Decimal) : Bool :=
  let (a, b) := d.ratio
  if i.closed then i.low * b ≤ a * i.den && a * i.den ≤ i.high * b
  else i.low * b < a * i.den && a * i.den < i.high * b

/-- Whether `10 ^ e ≤ num / den`. -/
def reachesTen (num den : Nat) (e : Int) : Bool :=
  if 0 ≤ e then Nat.pow 10 e.toNat * den ≤ num else den ≤ num * Nat.pow 10 (-e).toNat

/-- The greatest `e` with `10 ^ e ≤ num / den`. -/
def tenExponent (num den : Nat) : Int :=
  let guess := ((num.log2 : Int) - (den.log2 : Int)) * 30103 / 100000
  if reachesTen num den (guess + 1) then guess + 1
  else if reachesTen num den guess then guess
  else guess - 1

/-- The two neighbours of the ratio on the grid of multiples of `10 ^ e`, and twice the distance
of the ratio from the lower one, in units of the grid, as a ratio. -/
def neighbours (num den : Nat) (e : Int) : Decimal × Decimal × Nat × Nat :=
  let (a, b) :=
    if 0 ≤ e then (num, den * Nat.pow 10 e.toNat) else (num * Nat.pow 10 (-e).toNat, den)
  (⟨a / b, e⟩, ⟨a / b + 1, e⟩, 2 * (a % b), b)

/-- The nearer of the two neighbours that reads back, if one does. -/
def closest? (i : Interval) (num den : Nat) (e : Int) : Option Decimal :=
  let (lower, upper, twice, unit) := neighbours num den e
  match i.holds lower, i.holds upper with
  | false, false => none
  | true, false => some lower
  | false, true => some upper
  | true, true =>
    if twice < unit then some lower
    else if unit < twice then some upper
    else if lower.digits % 2 = 0 then some lower else some upper

/-- The first decimal that reads back on the grids of `n`, `n + 1`, … digits; the exact value on
the last grid if none does. -/
def search (i : Interval) (num den : Nat) (top : Int) : (left n : Nat) → Decimal
  | 0, n => (neighbours num den (top + 1 - n)).1
  | left + 1, n =>
    match closest? i num den (top + 1 - n) with
    | some d => d
    | none => search i num den top left (n + 1)

/-- The shortest decimal that reads back as a finite positive double. -/
def shortest (x : Double) : Decimal :=
  let (num, den) := x.magnitude
  (search x.interval num den (tenExponent num den) 17 1).trimmed

/-! ## Text -/

/-- The decimal digits of a natural number. -/
def digitText (n : Nat) : List Char := Nat.toDigits 10 n

/-- An exponent with its sign. -/
def exponentText (e : Int) : List Char :=
  (if e < 0 then ['e', '-'] else ['e', '+']) ++ digitText e.natAbs

/-- The text of a positive decimal with all its places, and at least one behind the point. -/
def Decimal.positional (d : Decimal) : List Char :=
  let digits := digitText d.digits
  -- the place of the point, counted from the first digit
  let point : Int := digits.length + d.exponent
  if 0 ≤ d.exponent then digits ++ List.replicate d.exponent.toNat '0' ++ ['.', '0']
  else if 0 < point then digits.take point.toNat ++ '.' :: digits.drop point.toNat
  else '0' :: '.' :: List.replicate (-point).toNat '0' ++ digits

/-- The text of a positive decimal. -/
def Decimal.text (d : Decimal) : List Char :=
  let digits := digitText d.digits
  let point : Int := digits.length + d.exponent
  if -5 < point ∧ point ≤ 16 then d.positional
  else
    match digits with
    | [d] => d :: exponentText (point - 1)
    | d :: rest => d :: '.' :: rest ++ exponentText (point - 1)
    | [] => []

/-- The text of a double with all its places. -/
def positionalText (x : Double) : List Char :=
  (if x.isNegative then ['-'] else []) ++
    (if x.isZero then ['0', '.', '0'] else x.shortest.positional)

/-- The text of a finite double. -/
def decimalText (x : Double) : List Char :=
  (if x.isNegative then ['-'] else []) ++
    (if x.isZero then ['0', '.', '0'] else x.shortest.text)

end Double

end WireCall
