import WireCall.WireError

/-!
# Errors of a client

How a call can fail, and what can go wrong where a connection is opened or closed. An error is
*retryable* if the same call may succeed on a new connection.
-/

namespace WireCall

/-- What can go wrong on the client. -/
inductive CallError where
  /-- the text that the server put into the response -/
  | server (why : String)
  /-- the client was closed -/
  | shutdown
  /-- the client had been closed before, or its connection is lost -/
  | alreadyShutdown
  | connectionClosed (why : String)
  | io (e : IoError)
  | wire (e : WireError)
  /-- the connection did not open in time -/
  | timeout
  /-- the reply cannot be decoded -/
  | decodeReply (e : WireError)
  /-- the arguments cannot be encoded -/
  | encodeArguments (e : WireError)

namespace CallError

/-- The wording of an error. What the server said is repeated as it is. -/
def message : CallError → String
  | .server why => why
  | .shutdown => "connection is shut down"
  | .alreadyShutdown => "connection is already shut down"
  | .connectionClosed why => "connection closed: " ++ why
  | .io e => "I/O error: " ++ e.message
  | .wire e => "protocol error: " ++ e.message
  | .timeout => "connect timeout"
  | .decodeReply e => "reading reply body: " ++ e.message
  | .encodeArguments e => "encoding call arguments: " ++ e.message

/-- Everything there is to say about an error: the case with what belongs to it. What belongs to an
error of the protocol is its wording, unless it comes from the system underneath. -/
def detail : CallError → String
  | .server why => "ServerError(" ++ Text.quoted why ++ ")"
  | .shutdown => "Shutdown"
  | .alreadyShutdown => "AlreadyShutdown"
  | .connectionClosed why => "ConnectionClosed(" ++ Text.quoted why ++ ")"
  | .io e => "Io(" ++ e.detail ++ ")"
  | .wire (.io e) => "Protocol(Io(" ++ e.detail ++ "))"
  | .wire e => "Protocol(" ++ e.message ++ ")"
  | .timeout => "Timeout"
  | .decodeReply e => "DecodeReply(" ++ e.message ++ ")"
  | .encodeArguments e => "EncodeArgs(" ++ e.message ++ ")"

/-- Whether the call may succeed on a new connection. -/
def isRetryable : CallError → Bool
  | .io _ | .timeout | .connectionClosed _ => true
  | .wire e => e.isEnd
  | _ => false

/-- Whether the call failed on the server and not on the way. -/
def isServerError : CallError → Bool
  | .server _ => true
  | _ => false

end CallError

end WireCall
