import WireCall.Address
import WireCall.IoError
import WireCall.Server
import WireCall.Yaml.Read

/-!
# The settings of a server program

The settings come from a file, and the environment overrides them. A setting that neither gives has
a default; a setting of the environment that cannot be read is passed over. A program does not run
with a limit of zero.
-/

namespace WireCall

/-- The settings of a server program. -/
structure Settings where
  bindAddress : Address := .standard
  maxConnections : Nat := 1000
  /-- in seconds -/
  handshakeTimeout : Nat := 10
  deriving DecidableEq

/-- The settings that the environment gives. -/
structure Environment where
  bindAddress : Option String := none
  maxConnections : Option String := none
  handshakeTimeout : Option String := none

/-- Why settings cannot be used. -/
inductive SettingsError where
  | io (path : String) (e : IoError)
  | parse (path : String) (e : Yaml.Trouble)
  | invalid (setting : String)

/-- The wording of an error. -/
def SettingsError.message : SettingsError → String
  | .io path e => "failed to read config file '" ++ path ++ "': " ++ e.message
  | .parse path e => "failed to parse config file '" ++ path ++ "': " ++ e.message
  | .invalid setting => "configuration validation failed: " ++ setting ++ " must be at least 1"

namespace Settings

/-! ## The file -/

/-- The path to the settings of the network. -/
def networkPath : List String := ["network"]

/-- Reads the address out of a node. -/
def readAddress (d : Yaml.Document) (s : Settings) (n : Yaml.Node) :
    Except Yaml.Trouble Settings := do
  let text ← d.text (networkPath ++ ["bind_addr"]) "a string" n
  match Address.parse? text with
  | some bindAddress => pure { s with bindAddress }
  | none => throw (.misfit "invalid socket address syntax" none)

/-- How each setting of the network is read. -/
def networkField (d : Yaml.Document) :
    String → Option (Settings → Yaml.Node → Except Yaml.Trouble Settings)
  | "bind_addr" => some (readAddress d)
  | "max_connections" => some fun s n => do
    let maxConnections ← d.natural (networkPath ++ ["max_connections"]) "usize" n
    pure { s with maxConnections }
  | "handshake_timeout_secs" => some fun s n => do
    let handshakeTimeout ← d.natural (networkPath ++ ["handshake_timeout_secs"]) "u64" n
    pure { s with handshakeTimeout }
  | _ => none

/-- Reads the settings of the network. -/
def readNetwork (d : Yaml.Document) (s : Settings) (n : Yaml.Node) :
    Except Yaml.Trouble Settings :=
  d.record networkPath "struct NetworkConfig" (networkField d) s n

/-- How each part of the settings is read. -/
def field (d : Yaml.Document) :
    String → Option (Settings → Yaml.Node → Except Yaml.Trouble Settings)
  | "network" => some (readNetwork d)
  | _ => none

/-- The settings that a text gives. -/
def ofText (text : String) : Except Yaml.Trouble Settings :=
  Yaml.read text fun d n => d.record [] "struct Config" (field d) {} n

/-- The settings that a file gives. -/
def ofFile (path : String) (content : Except IoError Bytes) : Except SettingsError Settings :=
  match content with
  | .error e => .error (.io path e)
  | .ok bytes =>
    match Bytes.toText? bytes with
    | none => .error (.io path .notText)
    | some text => (ofText text).mapError (SettingsError.parse path)

/-- The text that gives the settings. -/
def toText (s : Settings) : String :=
  let address := match s.bindAddress with
    | .v4 _ _ => s.bindAddress.text
    -- a bracket would open a sequence
    | .v6 _ _ _ => "'" ++ s.bindAddress.text ++ "'"
  "network:\n  bind_addr: " ++ address ++ "\n  max_connections: " ++ toString s.maxConnections
    ++ "\n  handshake_timeout_secs: " ++ toString s.handshakeTimeout ++ "\n"

/-! ## The environment -/

/-- The number of 64 bits that decimal digits spell, at most with a plus sign. -/
def number? (text : String) : Option Nat :=
  let digits := match text.toList with
    | '+' :: rest => rest
    | all => all
  (Yaml.digits? 10 digits).filter (· < 0x10000000000000000)

/-- The settings with those of the environment put over them. -/
def override (s : Settings) (env : Environment) : Settings where
  bindAddress := (env.bindAddress.bind Address.parse?).getD s.bindAddress
  maxConnections := (env.maxConnections.bind number?).getD s.maxConnections
  handshakeTimeout := (env.handshakeTimeout.bind number?).getD s.handshakeTimeout

/-- The settings that the environment gives alone. -/
def ofEnvironment (env : Environment) : Settings := ({} : Settings).override env

/-! ## Use -/

/-- Refuses settings that a server cannot run with. -/
def validate (s : Settings) : Except SettingsError Unit :=
  if s.maxConnections = 0 then .error (.invalid "max_connections")
  else if s.handshakeTimeout = 0 then .error (.invalid "handshake_timeout_secs")
  else .ok ()

/-- The settings of a program that is started with a file or without one. -/
def load (file : Option (String × Except IoError Bytes)) (env : Environment) :
    Except SettingsError Settings := do
  let s ← match file with
    | some (path, content) => ofFile path content
    | none => pure {}
  let s := s.override env
  s.validate
  pure s

/-- The settings of the server itself. -/
def server (s : Settings) : ServerSettings := ⟨s.handshakeTimeout * 1000, s.maxConnections⟩

end Settings

end WireCall
