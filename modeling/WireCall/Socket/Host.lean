import Std.Async.Timer
import Std.Sync.Mutex
import WireCall.Client.Schedule
import WireCall.Console
import WireCall.Socket

/-!
# The console on real sockets

A host for the program on the console: a client whose bytes go over a socket, the files of the
system, and what is typed in.
-/

namespace WireCall

open Std.Async

namespace Socket

/-- A client and the outlet of its bytes. -/
structure Caller where
  client : Client
  outlet : Outlet

/-- A client that works in the background. -/
structure Live where
  caller : Std.Mutex Caller
  /-- something has happened to the client -/
  changed : Std.Condvar
  /-- kept when nothing more is received -/
  finished : IO.Promise Unit

namespace Live

/-- Does something to the client and sends what it writes. A stream that cannot be written to has
failed. -/
def update (l : Live) (f : Client → Client) : IO Unit := do
  l.caller.atomically do
    let c ← get
    let client := f c.client
    try
      let outlet ← c.outlet.follow client.writer.sink false
      set ({ client, outlet } : Caller)
    catch e =>
      let client := client.act (.hangUp (.failed (ioError e)))
      set ({ c with client } : Caller)
  l.changed.notifyAll

/-- Gives the client what is received, to the end of the stream. -/
partial def receiveAll (l : Live) (socket : Socket) : Async Unit := do
  match ← socket.receive with
  | .bytes b =>
    l.update (·.act (.receive b))
    l.receiveAll socket
  | .ending e =>
    l.update (·.act (.hangUp e))
    l.finished.resolve ()

/-- Waits until nothing more is received, but not for long. -/
def awaitOver (l : Live) : Async Unit :=
  Async.race (Async.ofPurePromise (pure l.finished)) (sleep 1000)

/-- What is known about the client. -/
def look {α : Type} (l : Live) (f : Client → α) : IO α :=
  l.caller.atomically do return f (← get).client

/-- Waits until something is known about the client. -/
def await {α : Type} (l : Live) (f : Client → Option α) (otherwise : α) : IO α :=
  l.caller.atomicallyOnce l.changed (do return (f (← get).client).isSome)
    (do return (f (← get).client).getD otherwise)

/-- The use of the client. -/
def session (l : Live) : Console.Session IO where
  go method argument := do
    let n ← l.look fun c => c.calls.length
    l.update (·.go method argument)
    pure n
  done n := l.await (·.result? n) (.error .shutdown)
  first calls :=
    if calls.isEmpty then pure none
    else l.await (fun c => (c.finished? calls).map some) none
  isAvailable := l.look Client.isAvailable
  pendingCount := l.look Client.pendingCount
  close := do
    l.update Client.shutDown
    l.awaitOver.block
    l.look fun c => c.closes.getLast?.getD (.error .alreadyShutdown)

end Live

instance : Inhabited CallError := ⟨.timeout⟩

/-- Connects a socket, unless it takes too long. -/
def reach (s : Socket) (a : Address) (timeout : Nat) : Async (Except CallError Unit) :=
  Async.race
    (do
      try
        s.connect (systemAddress a)
        pure (.ok ())
      catch e => pure (.error (.io (ioError e))))
    (do
      sleep (.ofNat timeout)
      pure (.error .timeout))

/-- Connects a client. -/
def dial (a : Address) (d : Dialing) : IO (Except CallError (Console.Session IO)) := do
  let socket ← TCP.Socket.Client.mk
  match ← (reach socket a d.timeout).block with
  | .error e => pure (.error e)
  | .ok () =>
    try socket.noDelay catch _ => pure ()
    match (Client.connect d.options {} { behaviour := .faithful }).1 with
    | .error e => pure (.error e)
    | .ok client =>
      let live : Live := 
        ⟨← Std.Mutex.new ⟨client, { socket }⟩, ← Std.Condvar.new, ← IO.Promise.new⟩
      live.update id
      let _ ← (live.receiveAll socket).toIO
      pure (.ok live.session)

/-- Reads a file. -/
def readFile (path : String) : IO (Except IoError Bytes) := do
  try
    let bytes ← IO.FS.readBinFile path
    pure (.ok bytes.data.toList)
  catch e => pure (.error (ioError e))

/-- Hands over the lines that are typed in. -/
partial def eachLine (answer : String → IO Bool) : IO Bool := do
  let line ← (← IO.getStdin).getLine
  if line.isEmpty then pure true
  else if ← answer line then eachLine answer
  else pure false

/-- The system as a host of the program. -/
def host : Console.Host IO where
  dial := dial
  readFile := readFile
  eachLine := eachLine
  print text := do
    let out ← IO.getStdout
    out.putStr text
    out.flush
  clock := IO.monoNanosNow

end Socket

end WireCall
