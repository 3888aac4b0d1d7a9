import WireCall.Socket.Host
import WireCall.Socket.Listener

/-!
# The program

With the single argument `serve` the program is the server; with any other arguments it is the
client on the console.
-/

namespace WireCall

/-- Runs the client on the console and gives its exit code. -/
def console (arguments : List String) : IO UInt32 := do
  match Console.Arguments.read (← IO.getEnv "MINIRPC_CODEC") arguments with
  | .misuse =>
    IO.eprint Console.Arguments.summary
    pure 2
  | .help =>
    IO.print Console.Arguments.summary
    pure 0
  | .version =>
    IO.print Console.Arguments.version
    pure 0
  | .run i =>
    let e ← Console.run Socket.host i
    IO.eprint e.errors
    pure (UInt32.ofNat e.code)

end WireCall

/-- Runs the program. -/
def main (arguments : List String) : IO UInt32 :=
  match arguments with
  | ["serve"] => WireCall.Socket.daemon
  | _ => WireCall.console arguments
