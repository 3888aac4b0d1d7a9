import Std.Async.Signal
import Std.Async.Timer
import Std.Sync.Mutex
import WireCall.Daemon
import WireCall.Server.Schedule
import WireCall.Socket

/-!
# The server on real sockets

Accepts connections and gives the server what they bring; the time of the server is that of the
system. One step of the server is done at a time, and what it writes is sent before the next.
-/

namespace WireCall

open Std.Async

namespace Socket

/-- A server and the outlets of its connections, in their order. -/
structure Site where
  server : Server
  outlets : List Outlet := []

/-- A server that works in the background. -/
structure Listener where
  site : Std.Mutex Site
  /-- when the server was started, in milliseconds -/
  started : Nat

namespace Listener

/-- Sends what a connection has written. -/
def followOne (s : Site) (i : Nat) (o : Outlet) : IO (Server × Outlet) := do
  match s.server.connections[i]? with
  | none => pure (s.server, o)
  | some c =>
    try
      let o ← o.follow (c.sink?.getD { behaviour := .faithful }) c.isOver
      pure (s.server, o)
    catch e => pure (s.server.act (.hangUp i (.failed (ioError e))), { o with ended := true })

/-- Sends what all connections have written. -/
def follow (s : Site) : IO Site :=
  s.outlets.zipIdx.foldlM (fun after (o, i) => do
    let (server, o) ← followOne { after with server := after.server } i o
    pure { server, outlets := after.outlets ++ [o] }) { s with outlets := [] }

/-- Lets the time of the server catch up, does something to it, and sends what it writes. -/
def update {α : Type} (l : Listener) (f : Site → α × Site) : IO α := do
  let now := (← IO.monoMsNow) - l.started
  l.site.atomically do
    let site ← get
    let server := site.server.advance (now - site.server.now)
    let (a, site) := f { site with server }
    let site ← follow { site with server := site.server.settle }
    set site
    pure a

/-- Does a step of the server. -/
def act (l : Listener) (a : Server.Action) : IO Unit :=
  l.update fun s => ((), { s with server := s.server.act a })

/-- Gives the server what a connection brings, to the end of the stream. -/
partial def receiveAll (l : Listener) (i : Nat) (socket : Socket) : Async Unit := do
  match ← socket.receive with
  | .bytes b =>
    l.act (.receive i b)
    l.receiveAll i socket
  | .ending e => l.act (.hangUp i e)

/-- Accepts connections for ever. -/
partial def acceptAll (l : Listener) (s : TCP.Socket.Server) : Async Unit := do
  let socket ← s.accept
  try socket.noDelay catch _ => pure ()
  let i ← l.update fun site =>
    (site.outlets.length,
      { server := site.server.act (.arrive { behaviour := .faithful })
        outlets := site.outlets ++ [{ socket }] })
  let _ ← (l.receiveAll i socket).toIO
  l.acceptAll s

/-- Lets time pass for ever. -/
partial def tick (l : Listener) : Async Unit := do
  sleep 1
  let now := (← IO.monoMsNow) - l.started
  let due ← l.site.atomically do return (← get).server.nextDue?
  if due.any (· ≤ now) then l.update fun s => ((), s)
  l.tick

end Listener

/-- Writes an entry of the log. -/
def log (e : Daemon.Entry) : IO Unit := do
  let out ← IO.getStdout
  out.putStrLn e.line
  out.flush

/-- The start of the server program, as the environment describes it. -/
def daemonStart : IO Daemon.Start := do
  let file ← match ← IO.getEnv "MINIRPC_CONFIG" with
    | none => pure none
    | some path =>
      let content ← try
        let bytes ← IO.FS.readBinFile path
        pure (.ok bytes.data.toList)
      catch e => pure (.error (ioError e))
      pure (some (path, content))
  pure {
    file
    environment := ⟨← IO.getEnv "MINIRPC_BIND", ← IO.getEnv "MINIRPC_MAX_CONNECTIONS",
      ← IO.getEnv "MINIRPC_HANDSHAKE_TIMEOUT"⟩ }

/-- Accepts connections until the program is interrupted. -/
def serve (s : Settings) : IO Unit := do
  let listener ← TCP.Socket.Server.mk
  listener.bind (systemAddress s.bindAddress)
  listener.listen 1024
  let server := (Daemon.server s).act .listen
  let l : Listener := ⟨← Std.Mutex.new { server }, ← IO.monoMsNow⟩
  log (Daemon.listening (ofSystemAddress (← listener.getSockName)).text)
  let interrupted ← Signal.Waiter.mk .sigint false
  let interruption ← interrupted.wait
  let _ ← (l.acceptAll listener).toIO
  let _ ← l.tick.toIO
  let _ ← IO.ofExcept (← IO.wait interruption)
  log Daemon.stopping
  l.act .shutdown
  log Daemon.stopped

/-- Runs the server program and gives its exit code. -/
def daemon : IO UInt32 := do
  match Daemon.start (← daemonStart) with
  | .error entries =>
    entries.forM log
    pure 1
  | .ok (settings, entries) =>
    entries.forM log
    try
      serve settings
      pure 0
    catch e =>
      IO.eprintln ("Error: " ++ (ioError e).detail)
      pure 1

end Socket

end WireCall
