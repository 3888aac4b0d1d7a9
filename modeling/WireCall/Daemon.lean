import WireCall.Demo
import WireCall.Settings

/-!
# The server program

The server program reads its settings, publishes the demonstration service and accepts connections
until it is told to stop; what it does is written to a log. A settings file that cannot be used ends
the program. Without a file, settings of the environment that cannot be used are replaced by the
defaults.
-/

namespace WireCall

namespace Daemon

/-- How much an entry of the log matters. -/
inductive Level where
  | info
  | warning
  | error
  deriving DecidableEq, Repr

/-- An entry of the log. -/
structure Entry where
  level : Level
  text : String
  deriving DecidableEq, Repr

/-- The name of a level. -/
def Level.name : Level → String
  | .info => "INFO"
  | .warning => "WARN"
  | .error => "ERROR"

/-- The line for an entry. -/
def Entry.line (e : Entry) : String := e.level.name ++ " " ++ e.text

/-- What the program is started with. -/
structure Start where
  /-- the settings file, if one is named -/
  file : Option (String × Except IoError Bytes) := none
  environment : Environment := {}

/-- The settings that the program runs with, and what it logs on the way; or what it logs before it
ends, if it cannot run. -/
def settings (s : Start) : Except (List Entry) (Settings × List Entry) :=
  match Settings.load s.file s.environment, s.file with
  | .ok settings, none => .ok (settings, [])
  | .ok settings, some (path, _) => .ok (settings, [⟨.info, "Loaded config from " ++ path⟩])
  | .error e, none =>
    .ok ({}, [⟨.warning,
      "Invalid environment configuration (" ++ e.message ++ "), using defaults"⟩])
  | .error e, some _ => .error [⟨.error, "Failed to load config: " ++ e.message⟩]

/-- What is logged about the settings. -/
def announcement (s : Settings) : List Entry :=
  [⟨.info, "Starting minirpc server"⟩,
    ⟨.info, "  Bind address: " ++ s.bindAddress.text⟩,
    ⟨.info, "  Max connections: " ++ toString s.maxConnections⟩,
    ⟨.info, "  Handshake timeout: " ++ toString s.handshakeTimeout ++ "s"⟩]

/-- Starts the program: the settings that it runs with and the log so far, or the whole log if it
cannot run. -/
def start (s : Start) : Except (List Entry) (Settings × List Entry) := do
  let (settings, log) ← settings s
  pure (settings, log ++ announcement settings)

/-- The server before the first connection. -/
def server (s : Settings) : Server :=
  { settings := s.server, registry := ⟨Mapping.empty.insert Demo.service.name Demo.service⟩ }

/-- What is logged once connections are accepted at an address. -/
def listening (address : String) : Entry := ⟨.info, "rpc server: listening on " ++ address⟩

/-- What is logged when the program is told to stop. -/
def stopping : Entry := ⟨.info, "Received shutdown signal, stopping server..."⟩

/-- What is logged at the end. -/
def stopped : Entry := ⟨.info, "Server stopped"⟩

end Daemon

end WireCall
