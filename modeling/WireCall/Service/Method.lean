import WireCall.Codec
import WireCall.ServeError
import WireCall.Service.Name
import WireCall.Text.Quoted

/-!
# Methods

A method has an argument and a reply, each of its own shape, and a handler. The handler answers
with a *plan*: it may first let time pass, and then it replies, fails with a text, or breaks off.
What a handler may remember from one call to the next is the memory of its service, a number.
-/

namespace WireCall

/-- How a handler ends. -/
inductive Outcome (α : Type) where
  | replies (a : α)
  | fails (why : String)
  /-- the handler breaks off without an answer -/
  | panics
  deriving Repr

/-- What a handler is going to do. -/
structure Plan (α : Type) where
  /-- how long the handler sleeps before it ends, in milliseconds -/
  delay : Nat := 0
  outcome : Outcome α

/-- The type of an argument or a reply: its name and its shape. -/
structure ValueType where
  name : String
  shape : Shape

/-- A method of a service. -/
structure Method where
  name : String
  argument : ValueType
  reply : ValueType
  handler : (memory : Nat) → argument.shape.Value → Nat × Plan reply.shape.Value
  /-- how often the method has been called, in 64 bits -/
  calls : UInt64 := 0

namespace Method

/-- A method with a name, whose handler needs no memory. -/
def make (name : String) (argument reply : ValueType)
    (handler : argument.shape.Value → Plan reply.shape.Value) : Method :=
  ⟨name, argument, reply, fun memory a => (memory, handler a), 0⟩

/-- The encoded reply of a method, or the text of its failure. A method that broke off is named
in the text as the request named it. -/
def answer (m : Method) (c : Codec) (request : String) :
    Outcome m.reply.shape.Value → Except String Bytes
  | .replies a => (c.encode m.reply.shape a).mapError fun e => (ServeError.encodeReply e).message
  | .fails why => .error why
  | .panics => .error ("rpc server: method " ++ request ++ " panicked")

/-- A method described in one line. -/
def describe (m : Method) : String :=
  "MethodType \x7b name: " ++ Text.quoted m.name ++ ", arg_type: " ++ Text.quoted m.argument.name
    ++ ", reply_type: " ++ Text.quoted m.reply.name ++ ", num_calls: " ++ toString m.calls.toNat
    ++ " \x7d"

end Method

end WireCall
