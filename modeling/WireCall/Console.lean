import WireCall.Client
import WireCall.Console.Bench
import WireCall.Console.Host
import WireCall.Console.Typed

/-!
# The program on the console

Connects to a server and carries out one command, or a dialogue of them. A value is read and printed
as JSON, so that calls need the codec for it; only the bench works with every codec.
-/

namespace WireCall

namespace Console

/-- Why a command fails. -/
inductive Failure where
  | io (e : IoError)
  | json (e : Json.Error)
  | count (e : CountError)
  | call (e : CallError)

/-- The wording of a failure. -/
def Failure.message : Failure → String
  | .io e => e.message
  | .json e => e.message
  | .count e => e.message
  | .call e => e.message

/-- How the program ends. -/
structure Exit where
  code : Nat
  /-- what it says about errors -/
  errors : String := ""
  deriving DecidableEq, Repr

/-- The help that is given in a dialogue. -/
def helpText : String := "
Available commands:
  help                              Show this help

  call <Service.Method> <json>      Call a method with a JSON argument
  <Service.Method> <json>           Same as call
  bench [n]                         Issue n concurrent Foo.Sum calls

  pending                           Show calls awaiting a reply

  quit, exit                        Exit the REPL
"

/-- The text of a value, on several lines. -/
def prettyText (j : Json) : String := (Bytes.toText? (j.pretty 0)).getD ""

variable {m : Type → Type} [Monad m]

/-! ## Single commands -/

/-- The value that a text spells. -/
def parse (text : Bytes) : Except Failure Json :=
  match Bytes.toText? text with
  | none => .error (.io .notText)
  | some _ => (Json.parse text).mapError .json

/-- The value of an argument. -/
def load (h : Host m) : Argument → m (Except Failure Json)
  | .absent => pure (.ok .null)
  | .inline text => pure (parse (Bytes.ofText text))
  | .file path => do
    match ← h.readFile path with
    | .error e => pure (.error (.io e))
    | .ok text => pure (parse text)

/-- Makes a call and gives the text of its reply. -/
def call (h : Host m) (s : Session m) (codec : Codec) (method : String) (argument : Argument) :
    m (Except Failure String) := do
  match ← load h argument with
  | .error e => pure (.error e)
  | .ok value =>
    let r ← s.call method ⟨.json, value⟩
    match Client.decodeReply codec .json r with
    | .error e => pure (.error (.call e))
    | .ok reply => pure (.ok (prettyText reply))

/-- Makes many calls and gives the report on them. -/
def bench (h : Host m) (s : Session m) (codec : Codec) (n : Nat) : m String := do
  let started ← h.clock
  let results ← Bench.join s codec n
  let ended ← h.clock
  pure (Bench.report results (ended - started))

/-! ## The dialogue -/

/-- Carries out a command that is typed in; nothing is said if the dialogue is to end. -/
def execute (h : Host m) (s : Session m) (codec : Codec) :
    Typed → m (Except Failure (Option String))
  | .help => pure (.ok (some helpText))
  | .leave => pure (.ok none)
  | .pending => do
    let n ← s.pendingCount
    pure (.ok (some (toString n ++ " pending")))
  | .bench (.error e) => pure (.error (.count e))
  | .bench (.ok n) => do
    let report ← bench h s codec n
    pure (.ok (some report))
  | .call method argument => do
    let r ← call h s codec method argument
    pure (r.map some)
  | .incomplete => pure (.ok (some "Usage: call <Service.Method> <json>"))
  | .unknown word =>
    pure (.ok (some ("Unknown command: " ++ word ++ ". Type 'help' for help.")))

/-- Says that the connection is lost, if it is, and whether the dialogue goes on. -/
def goesOn (h : Host m) (s : Session m) : m Bool := do
  let available ← s.isAvailable
  unless available do h.print "Connection lost.\n"
  pure available

/-- Answers a line and says whether the dialogue goes on. -/
def answer (h : Host m) (s : Session m) (codec : Codec) (line : String) : m Bool := do
  match Typed.ofLine? line with
  | none => pure true
  | some command =>
    match ← execute h s codec command with
    | .ok none => pure false
    | .ok (some output) =>
      h.print (output ++ "\n\n")
      goesOn h s
    | .error e =>
      h.print ("Error: " ++ e.message ++ "\n\n")
      goesOn h s

/-- Answers the lines that are typed in. -/
def dialogue (h : Host m) (s : Session m) (server : Address) (codec : Codec) : m Exit := do
  h.print "minirpc CLI\n"
  h.print ("Connected to " ++ server.text ++ " (" ++ codec.identifier ++ ")\n")
  h.print "Type 'help' for available commands.\n\n"
  let atEnd ← h.eachLine (answer h s codec)
  if atEnd then h.print "^D\n"
  let _ ← s.close
  h.print "Disconnected.\n"
  pure { code := 0 }

/-! ## The whole -/

/-- Prints what a command has led to and closes the connection; after a failure it is left open. -/
def conclude (h : Host m) (s : Session m) (r : Except Failure String) : m Exit := do
  match r with
  | .error e => pure ⟨1, "Error: " ++ e.message ++ "\n"⟩
  | .ok output =>
    h.print (output ++ "\n")
    match ← s.close with
    | .ok () => pure { code := 0 }
    | .error e => pure ⟨1, "Error: " ++ e.detail ++ "\n"⟩

/-- Carries out the command of an invocation on a connection. -/
def serve (h : Host m) (s : Session m) (i : Invocation) : m Exit := do
  match i.command with
  | .dialogue => dialogue h s i.server i.codec
  | .call method argument =>
    let r ← call h s i.codec method (.ofText argument.toList)
    conclude h s r
  | .bench n =>
    let report ← bench h s i.codec n
    conclude h s (.ok report)

/-- Whether a command works with a codec. -/
def Command.allows : Command → Codec → Bool
  | .bench _, _ => true
  | _, codec => codec = .json

/-- Runs the program. -/
def run (h : Host m) (i : Invocation) : m Exit := do
  if i.command.allows i.codec then
    match ← h.dial i.server (({} : Dialing).withCodec i.codec) with
    | .error e =>
      pure ⟨1, "Connection failed: " ++ e.message ++ "\nError: " ++ e.detail ++ "\n"⟩
    | .ok s => serve h s i
  else pure ⟨1, "Error: call and repl need --codec " ++ Codec.json.identifier ++ "\n"⟩

end Console

end WireCall
