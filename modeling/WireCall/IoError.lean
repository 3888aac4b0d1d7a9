import WireCall.Text.Quoted

/-!
# Input and output errors

What the streams, files and networks underneath report when they fail.
-/

namespace WireCall

/-- Why an operation of the system underneath failed. -/
inductive IoError where
  /-- the other end is gone -/
  | broken
  /-- the other end gave up the connection -/
  | reset
  /-- a stream took none of the bytes that were written to it -/
  | wroteNothing
  /-- there is no way to the address -/
  | networkUnreachable
  /-- nobody listens at the address -/
  | connectionRefused
  /-- there is no file of that name -/
  | noSuchFile
  /-- a file does not hold UTF-8 text -/
  | notText
  /-- anything else that the system reports, by its number -/
  | system (number : Nat) (reason : String)
  deriving DecidableEq, Repr

/-- The number that the system gives to an error, if it has one. -/
def IoError.number? : IoError → Option Nat
  | .networkUnreachable => some 101
  | .connectionRefused => some 111
  | .noSuchFile => some 2
  | .system n _ => some n
  | _ => none

/-- What the system says about an error. -/
def IoError.reason : IoError → String
  | .broken => "broken"
  | .reset => "reset"
  | .wroteNothing => "write zero"
  | .networkUnreachable => "Network is unreachable"
  | .connectionRefused => "Connection refused"
  | .noSuchFile => "No such file or directory"
  | .notText => "stream did not contain valid UTF-8"
  | .system _ reason => reason

/-- The kinds of some errors that the system reports by number. -/
def IoError.kinds : List (Nat × String) :=
  [(13, "PermissionDenied"), (21, "IsADirectory"), (32, "BrokenPipe"), (98, "AddrInUse"),
    (99, "AddrNotAvailable"), (104, "ConnectionReset"), (110, "TimedOut"),
    (113, "HostUnreachable")]

/-- What kind of thing the system says has happened. -/
def IoError.kind : IoError → String
  | .networkUnreachable => "NetworkUnreachable"
  | .connectionRefused => "ConnectionRefused"
  | .noSuchFile => "NotFound"
  | .reset => "ConnectionReset"
  | .wroteNothing => "WriteZero"
  | .notText => "InvalidData"
  | .broken => "Other"
  | .system n _ => (IoError.kinds.find? fun k => k.1 = n).elim "Uncategorized" Prod.snd

/-- The wording of an error. -/
def IoError.message (e : IoError) : String :=
  match e.number? with
  | some n => e.reason ++ " (os error " ++ toString n ++ ")"
  | none => e.reason

/-- Everything there is to say about an error. -/
def IoError.detail (e : IoError) : String :=
  match e.number? with
  | some n =>
    "Os \x7b code: " ++ toString n ++ ", kind: " ++ e.kind ++ ", message: " ++ Text.quoted e.reason
      ++ " \x7d"
  | none => "Custom \x7b kind: " ++ e.kind ++ ", error: " ++ Text.quoted e.reason ++ " \x7d"

end WireCall
