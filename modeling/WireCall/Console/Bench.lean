import WireCall.Client
import WireCall.Console.Host
import WireCall.Demo
import WireCall.Text.Duration

/-!
# Many calls at the same time

A bench issues calls of `Foo.Sum` with each number below a limit and its square, and reports what
has become of them. All calls are issued before one is waited for. They are completed in any order;
the report is in the order of the numbers.
-/

namespace WireCall

namespace Console

namespace Bench

/-- The method that is called. -/
def method : String := "Foo.Sum"

/-- The argument of the call for a number. The square is taken in 64 bits. -/
def argument (i : Nat) : Datum :=
  let number := BitVec.ofNat 64 i
  ⟨Demo.argumentShape, Demo.arguments number (number * number)⟩

/-- What has become of a call: its reply, or its error. -/
abbrev Result := Except CallError (BitVec 64)

/-! ## The calls -/

variable {m : Type → Type} [Monad m]

/-- What waits for a call. -/
structure Waiter where
  /-- the number that the call is for -/
  number : Nat
  call : Nat

/-- Issues the calls in the order of the numbers, with something that waits for each of them. -/
def issue (s : Session m) (n : Nat) : m (List Waiter) :=
  (List.range n).mapM fun i => do
    let call ← s.go method (argument i)
    pure ⟨i, call⟩

/-- Collects the results in the order in which the calls are completed, each with its number. -/
def collect (s : Session m) (codec : Codec) (waiters : List Waiter) : m (List (Nat × Result)) := do
  match ← s.first (waiters.map Waiter.call) with
  | none => pure []
  | some k =>
    let place : Fin waiters.length := k.cast (List.length_map Waiter.call)
    let waiter := waiters[place]
    let reply ← s.done waiter.call
    let results ← collect s codec (waiters.eraseIdx place)
    pure ((waiter.number, Client.decodeReply codec Demo.reply.shape reply) :: results)
termination_by waiters.length
decreasing_by
  rw [List.length_eraseIdx_of_lt place.isLt]
  exact Nat.sub_one_lt_of_lt place.isLt

/-- Issues all calls and collects their results. -/
def join (s : Session m) (codec : Codec) (n : Nat) : m (List (Nat × Result)) := do
  collect s codec (← issue s n)

/-! ## The report -/

/-- The line for one number. -/
def line (i : Nat) (r : Result) : String :=
  let sum := toString i ++ " + " ++ toString i ++ "^2"
  match r with
  | .ok reply => sum ++ " = " ++ toString reply.toInt ++ "\n"
  | .error e => sum ++ ": " ++ e.message ++ "\n"

/-- Whether a call has failed. -/
def isFailure (r : Result) : Bool :=
  match r with
  | .ok _ => false
  | .error _ => true

/-- The results in the order of the numbers they are for. -/
def inOrder (results : List (Nat × Result)) : List (Nat × Result) :=
  results.mergeSort fun a b => a.1 ≤ b.1

/-- The last line: how many calls there were, how long they took, and how many of them failed. -/
def summary (results : List (Nat × Result)) (nanoseconds : Nat) : String :=
  toString results.length ++ " calls in " ++ Text.duration nanoseconds ++ " ("
    ++ toString (results.countP fun r => isFailure r.2) ++ " failed)"

/-- The report on all calls, given in the order of their completion. -/
def report (results : List (Nat × Result)) (nanoseconds : Nat) : String :=
  String.join ((inOrder results).map fun r => line r.1 r.2) ++ summary results nanoseconds

end Bench

end Console

end WireCall
