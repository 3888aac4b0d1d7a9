import WireCall.Address
import WireCall.Codec

/-!
# The arguments of the program

The program is asked for one command on one server. In front of the command stand the options that
say which server it is and which codec is agreed on with it; each can be given once, in a long or
a short spelling, and its value stands in the same argument or in the next one. Where no codec is
given, the environment may name one.
-/

namespace WireCall

namespace Console

/-- What the program is asked to do with the server. -/
inductive Command where
  /-- carry out commands that are typed in -/
  | dialogue
  /-- make one call; the argument is given as text -/
  | call (method argument : String)
  /-- make so many calls at the same time -/
  | bench (n : Nat)
  deriving DecidableEq, Repr

/-- What the program is asked for. -/
structure Invocation where
  server : Address
  codec : Codec
  command : Command
  deriving DecidableEq

/-- What the arguments of the program mean. -/
inductive Verdict where
  | run (i : Invocation)
  /-- the version of the program is asked for -/
  | version
  /-- a summary of the arguments is asked for -/
  | help
  /-- the arguments do not make sense -/
  | misuse
  deriving DecidableEq

/-- The options in front of the command. -/
structure Given where
  server : Option Address := none
  codec : Option Codec := none

namespace Arguments

/-- The number of calls where none is given. -/
def defaultCalls : Nat := 5

/-- What is printed where the version is asked for. -/
def version : String := "minirpc-cli 0.1.0\n"

/-- What is printed where a summary of the arguments is asked for. -/
def summary : String := "Command-line interface for minirpc servers

Usage: minirpc-cli [OPTIONS] [COMMAND]

Commands:
  repl   Start interactive REPL
  call   Call a method once
  bench  Issue concurrent Foo.Sum calls over one connection
  help   Print this message or the help of the given subcommand(s)

Options:
  -s, --server <SERVER>  Server address [default: 127.0.0.1:7411]
  -c, --codec <CODEC>    Body encoding to negotiate [env: MINIRPC_CODEC=] [default: application/json]
  -h, --help             Print help
  -V, --version          Print version
"

/-! ## Single arguments -/

/-- Whether an argument is an option, or looks like one. A hyphen alone is a value. -/
def isHyphened (arg : String) : Bool := arg.startsWith "-" && arg ≠ "-"

/-- How an argument gives the value of an option. -/
inductive Value where
  /-- it is another argument -/
  | other
  /-- the value is the next argument -/
  | next
  /-- the value is in the same argument -/
  | here (value : List Char)

/-- The value that an argument gives an option with a long and a short spelling. -/
def Value.of (long : String) (short : Char) (arg : String) : Value :=
  match arg.toList with
  | '-' :: '-' :: name =>
    match name.span (· ≠ '=') with
    | (name, '=' :: value) => if name = long.toList then .here value else .other
    | (name, _) => if name = long.toList then .next else .other
  | '-' :: c :: value =>
    if c ≠ short then .other
    else
      match value with
      | [] => .next
      | '=' :: value => .here value
      | value => .here value
  | _ => .other

/-- Whether an argument is a switch with a long and a short spelling. Behind a short switch nothing
is looked at. -/
def isSwitch (long : String) (short : Char) (arg : String) : Bool :=
  arg = "--" ++ long || (!arg.startsWith "--" && arg.startsWith (String.ofList ['-', short]))

/-- Whether an argument asks for a summary. -/
def asksForHelp (arg : String) : Bool := isSwitch "help" 'h' arg

/-- The number of calls that an argument spells: decimal digits with a sign or without one, of
32 bits at most. -/
def calls? (value : List Char) : Option Nat :=
  let (negative, digits) := match value with
    | '-' :: rest => (true, rest)
    | '+' :: rest => (false, rest)
    | all => (false, all)
  let n := digits.foldl (fun n c => n * 10 + (c.toNat - '0'.toNat)) 0
  if digits.isEmpty || !digits.all Char.isDigit || 0x100000000 ≤ n || (negative && n ≠ 0) then none
  else some n

/-! ## Commands -/

/-- The invocation, once the command is known. -/
def finish (environment : Option String) (g : Given) (command : Command) : Verdict :=
  let codec : Except WireError Codec := match g.codec, environment with
    | some codec, _ => .ok codec
    | none, some name => Codec.ofIdentifier name
    | none, none => .ok .json
  match codec with
  | .ok codec => .run ⟨g.server.getD .standard, codec, command⟩
  | .error _ => .misuse

/-- The arguments of a command that has none. -/
def readNone (done : Command → Verdict) : List String → Verdict
  | [] | ["--"] => done .dialogue
  | arg :: _ => if asksForHelp arg then .help else .misuse

/-- The arguments of a call. Behind a double hyphen there are no options. -/
def readCall (done : Command → Verdict) (escaped : Bool) (found : List String) :
    List String → Verdict
  | [] =>
    match found with
    | [method, argument] => done (.call method argument)
    | _ => .misuse
  | arg :: rest =>
    if !escaped && arg = "--" then readCall done true found rest
    else if !escaped && asksForHelp arg then .help
    else if !escaped && isHyphened arg then .misuse
    else if found.length = 2 then .misuse
    else readCall done escaped (found ++ [arg]) rest

/-- The arguments of a bench. -/
def readBench (done : Command → Verdict) (n : Option Nat) : List String → Verdict
  | [] | ["--"] => done (.bench (n.getD defaultCalls))
  | arg :: rest =>
    if asksForHelp arg then .help
    else if n.isSome then .misuse
    else
      match Value.of "n" 'n' arg, rest with
      | .here value, rest =>
        match calls? value with
        | some n => readBench done (some n) rest
        | none => .misuse
      | .next, value :: rest =>
        if isHyphened value then .misuse
        else
          match calls? value.toList with
          | some n => readBench done (some n) rest
          | none => .misuse
      | _, _ => .misuse

/-- The command that an argument names, with how its own arguments are read. -/
def command? (done : Command → Verdict) : String → Option (List String → Verdict)
  | "repl" => some (readNone done)
  | "call" => some (readCall done false [])
  | "bench" => some (readBench done none)
  | "help" => some fun _ => .help
  | _ => none

/-! ## The whole -/

/-- The options with a server, unless there is one already. -/
def Given.addServer? (g : Given) (value : List Char) : Option Given :=
  match g.server, Address.parse? (String.ofList value) with
  | none, some server => some { g with server := some server }
  | _, _ => none

/-- The options with a codec, unless there is one already. -/
def Given.addCodec? (g : Given) (value : List Char) : Option Given :=
  match g.codec, Codec.ofIdentifier (String.ofList value) with
  | none, .ok codec => some { g with codec := some codec }
  | _, _ => none

/-- How the value of an option is added to the others, and how an argument gives it. -/
def option? (g : Given) (arg : String) : Option ((List Char → Option Given) × Value) :=
  match Value.of "server" 's' arg, Value.of "codec" 'c' arg with
  | .other, .other => none
  | .other, value => some (Given.addCodec? g, value)
  | value, _ => some (Given.addServer? g, value)

/-- Reads the arguments from the given point on. -/
def readFrom (environment : Option String) (g : Given) : List String → Verdict
  | [] | ["--"] => finish environment g .dialogue
  | arg :: rest =>
    match command? (finish environment g) arg with
    | some read => read rest
    | none =>
      if asksForHelp arg then .help
      else if isSwitch "version" 'V' arg then .version
      else
        match option? g arg, rest with
        | some (add, .here value), rest =>
          match add value with
          | some g => readFrom environment g rest
          | none => .misuse
        | some (add, .next), value :: rest =>
          if isHyphened value then .misuse
          else
            match add value.toList with
            | some g => readFrom environment g rest
            | none => .misuse
        | _, _ => .misuse

/-- What the arguments mean, where the environment may name a codec. -/
def read (environment : Option String) (arguments : List String) : Verdict :=
  readFrom environment {} arguments

end Arguments

end Console

end WireCall
