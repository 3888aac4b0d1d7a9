/-!
# Durations

A duration is written in the largest of four units that is not larger than it, with two decimal
places; a half goes to the even neighbour.
-/

namespace WireCall

namespace Text

/-- The units that durations are written in, each with its length in nanoseconds. -/
def durationUnits : List (Nat × String) := [(1000000000, "s"), (1000000, "ms"), (1000, "µs")]

/-- The quotient of two numbers, rounded; a half goes to the even neighbour. -/
def roundedQuotient (n d : Nat) : Nat :=
  let q := n / d
  let twice := 2 * (n % d)
  if d < twice ∨ (d = twice ∧ q % 2 = 1) then q + 1 else q

/-- The text of a duration in nanoseconds. -/
def duration (nanoseconds : Nat) : String :=
  let (unit, name) := (durationUnits.find? fun u => u.1 ≤ nanoseconds).getD (1, "ns")
  let hundredths := roundedQuotient (nanoseconds * 100) unit
  let digits := Nat.toDigits 10 (hundredths % 100)
  let places := List.replicate (2 - digits.length) '0' ++ digits
  toString (hundredths / 100) ++ "." ++ String.ofList places ++ name

end Text

end WireCall
