import WireCall.Service.Method

/-!
# Services

A service is a name, some methods and a memory that the handlers of all its methods share. Adding
a method replaces one of the same name; a method whose name is not exported is left out.
-/

namespace WireCall

/-- Methods under a common name. -/
structure Service where
  name : String
  methods : Mapping Method := .empty
  memory : Nat := 0

namespace Service

/-- A service without methods under the given name. -/
def named (name : String) : Service := { name }

/-- A service without methods that takes its name from the type of its receiver. -/
def ofType (path : String) : Service := named (ServiceName.ofType path)

/-- The service with a method added. -/
def method (s : Service) (m : Method) : Service :=
  if ServiceName.isExported m.name then { s with methods := s.methods.insert m.name m } else s

/-- The method of the given name. -/
def find? (s : Service) (name : String) : Option Method := s.methods.get? name

/-- The names of the methods, in their order. -/
def methodNames (s : Service) : List String := s.methods.keys

/-- A service described in one line, with its methods in the order of their names. -/
def describe (s : Service) : String :=
  let methods := s.methods.entries.map fun p => Text.quoted p.1 ++ ": " ++ p.2.describe
  "Service \x7b name: " ++ Text.quoted s.name ++ ", methods: \x7b"
    ++ String.intercalate ", " methods ++ "\x7d \x7d"

end Service

end WireCall
