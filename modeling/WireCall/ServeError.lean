import WireCall.WireError

/-!
# Errors of a server

What can go wrong where services are published, connections are served and requests are answered.
An error *per request* is told to the caller in the response, and the connection goes on.
-/

namespace WireCall

/-- What can go wrong on the server. -/
inductive ServeError where
  | io (e : IoError)
  | wire (e : WireError)
  /-- a service under a name that is not exported -/
  | invalidServiceName (name : String)
  /-- a second service of the same name -/
  | duplicateService (name : String)
  /-- a request for a method without a dot in its name -/
  | illFormed (name : String)
  | serviceNotFound (service : String)
  | methodNotFound (service method : String)
  /-- the argument of a request cannot be decoded -/
  | readArgument (e : WireError)
  /-- the reply of a method cannot be encoded -/
  | encodeReply (e : WireError)
  /-- a client took too long to send its options -/
  | handshakeTimeout

namespace ServeError

/-- The wording of an error. -/
def message : ServeError → String
  | .io e => "I/O error: " ++ e.message
  | .wire e => "protocol error: " ++ e.message
  | .invalidServiceName name => "rpc server: " ++ name ++ " is not a valid service name"
  | .duplicateService name => "rpc server: service " ++ name ++ " is already defined"
  | .illFormed name => "rpc server: service/method request ill-formed: " ++ name
  | .serviceNotFound service => "rpc server: service " ++ service ++ " not found"
  | .methodNotFound service method =>
    "rpc server: method " ++ method ++ " of service " ++ service ++ " not found"
  | .readArgument e => "rpc server: read argument failed: " ++ e.message
  | .encodeReply e => "rpc server: encode reply failed: " ++ e.message
  | .handshakeTimeout => "negotiation timed out"

/-- Whether the error is answered in a response while the connection stays open. -/
def isPerRequest : ServeError → Bool
  | .illFormed _ | .serviceNotFound _ | .methodNotFound _ _ | .readArgument _
  | .encodeReply _ => true
  | _ => false

end ServeError

end WireCall
