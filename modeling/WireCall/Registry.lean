import WireCall.Service

/-!
# The registry of services

A server publishes each service under its name, once. A request is *resolved* by the name of the
method that it calls, which is cut at the last dot. A resolved request whose argument can be
decoded is *prepared*; the handler sees the argument only when the prepared call is invoked.
-/

namespace WireCall

/-- The published services. -/
structure Registry where
  services : Mapping Service := .empty

/-- A call that is ready to be made: the method and the decoded argument. -/
structure Prepared where
  /-- the name of the service -/
  service : String
  method : Method
  argument : method.argument.shape.Value

namespace Registry

/-- Publishes a service. -/
def register (r : Registry) (s : Service) : Except ServeError Registry :=
  if ¬ ServiceName.isExported s.name then .error (.invalidServiceName s.name)
  else
    match r.services.get? s.name with
    | some _ => .error (.duplicateService s.name)
    | none => .ok ⟨r.services.insert s.name s⟩

/-- The service that a request names, by its own name, and the method. -/
def lookup (r : Registry) (request : String) : Except ServeError (String × Method) :=
  match ServiceName.split request with
  | none => .error (.illFormed request)
  | some (service, method) =>
    match r.services.get? service with
    | none => .error (.serviceNotFound service)
    | some s =>
      match s.find? method with
      | none => .error (.methodNotFound service method)
      | some m => .ok (service, m)

/-- The method that a request names. -/
def resolve (r : Registry) (request : String) : Except ServeError Method :=
  (r.lookup request).map Prod.snd

/-- Resolves a request and decodes its argument. -/
def prepare (r : Registry) (c : Codec) (request : String) (body : Bytes) :
    Except ServeError Prepared := do
  let (service, m) ← r.lookup request
  let argument ← (c.decode m.argument.shape body).mapError .readArgument
  pure ⟨service, m, argument⟩

/-- What the handlers of a service remember. -/
def memory (r : Registry) (service : String) : Nat :=
  match r.services.get? service with
  | some s => s.memory
  | none => 0

/-- Makes a call: counts it and asks the handler for its plan. -/
def invoke (r : Registry) (p : Prepared) : Registry × Plan p.method.reply.shape.Value :=
  let (memory, plan) := p.method.handler (r.memory p.service) p.argument
  let called (m : Method) : Method := { m with calls := m.calls + 1 }
  let served (s : Service) : Service :=
    { s with memory, methods := s.methods.modify p.method.name called }
  (⟨r.services.modify p.service served⟩, plan)

end Registry

end WireCall
