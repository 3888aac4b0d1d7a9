import WireCall.Service

/-!
# The demonstration service

A service `Foo` with two methods on a pair of numbers: `Sum` adds them, and `Sleep` adds them after
as many milliseconds as the first one says. Sums are exact: one that does not fit 64 bits is a
failure (`Demo.sum_replies`).
-/

namespace WireCall

namespace Demo

/-- The fields of the argument of both methods. -/
def argumentShape : Shape :=
  .record "Args"
    (.field "num1" .required (.integer .w64)
      (.field "num2" .required (.integer .w64) .done))

/-- The argument of both methods. -/
def argument : ValueType := ⟨"minirpc::demo::Args", argumentShape⟩

/-- The reply of both methods. -/
def reply : ValueType := ⟨"i64", .integer .w64⟩

/-- The argument made of two numbers. -/
def arguments (num1 num2 : BitVec 64) : argumentShape.Value := (num1, num2, ())

/-- The two numbers of an argument. -/
def numbers (a : argumentShape.Value) : BitVec 64 × BitVec 64 :=
  let (num1, num2, _) : BitVec 64 × BitVec 64 × Unit := a
  (num1, num2)

/-- Whether an integer fits 64 bits. -/
def Fits (i : Int) : Prop := -0x8000000000000000 ≤ i ∧ i < 0x8000000000000000

instance (i : Int) : Decidable (Fits i) := inferInstanceAs (Decidable (_ ∧ _))

/-- The sum of two numbers. -/
def sum (a b : BitVec 64) : Outcome (BitVec 64) :=
  let total := a.toInt + b.toInt
  if Fits total then .replies (BitVec.ofInt 64 total)
  else .fails (toString a.toInt ++ " + " ++ toString b.toInt ++ " overflows")

/-- A reply is the exact sum. -/
theorem sum_replies {a b c : BitVec 64} (h : sum a b = .replies c) :
    c.toInt = a.toInt + b.toInt := by
  simp only [sum] at h
  split at h
  · rename_i hfits
    obtain rfl := Outcome.replies.inj h
    obtain ⟨hlow, hhigh⟩ := hfits
    rw [BitVec.toInt_ofInt, Int.bmod_eq_of_le] <;> omega
  · cases h

/-- The plan of the method `Sum`. -/
def sumPlan (a : argumentShape.Value) : Plan (BitVec 64) :=
  let (num1, num2) := numbers a
  ⟨0, sum num1 num2⟩

/-- The plan of the method `Sleep`. -/
def sleepPlan (a : argumentShape.Value) : Plan (BitVec 64) :=
  let (num1, num2) := numbers a
  if num1.toInt < 0 then
    ⟨0, .fails ("cannot sleep " ++ toString num1.toInt ++ " milliseconds")⟩
  else ⟨num1.toNat, sum num1 num2⟩

/-- The service `Foo`. -/
def service : Service :=
  (Service.named "Foo"
    |>.method (.make "Sum" argument reply sumPlan)
    |>.method (.make "Sleep" argument reply sleepPlan))

end Demo

end WireCall
