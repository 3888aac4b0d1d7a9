import WireCall.Yaml.Scalar

/-!
# Reading values out of a YAML tree

The functions here read a number, a text or the fields of a record out of a node. What does not fit
is told with the path to it and its place. Where the tree is cut off, reading fails with the cause
of that, unless something in front of the cut did not fit already.
-/

namespace WireCall

namespace Yaml

/-- Why a value cannot be read. -/
inductive Trouble where
  /-- the text is cut off -/
  | cut (c : Cut)
  /-- something does not fit; the names on the path to it and its place, once they are known -/
  | misfit (what : String) (spot : Option (List String × Place))
  /-- the text holds more than one document -/
  | several

/-- The wording of a trouble. -/
def Trouble.message : Trouble → String
  | .cut c => c.message
  | .misfit what none => what
  | .misfit what (some (path, place)) =>
    (if path.isEmpty then "" else String.intercalate "." path ++ ": ") ++ what
      ++ (if place.isStart then "" else " at " ++ place.text)
  | .several => "deserializing from YAML containing more than one document is not supported"

/-- A trouble that is not placed yet gets its place. -/
def Trouble.locate (path : List String) (place : Place) : Trouble → Trouble
  | .misfit what none => .misfit what (some (path, place))
  | other => other

namespace Document

/-- The cause of the cut. -/
def cutOff {α : Type} (d : Document) : Except Trouble α :=
  match d.cut with
  | some c => .error (.cut c)
  | none => .error (.misfit "EOF while parsing a value" none)

/-- The node itself, or the one it refers to. -/
def target (d : Document) : Node → Node
  | .reference number =>
    match d.named.find? fun p => p.1 = number with
    | some (_, n) => n
    | none => .lost
  | n => n

/-- A node where something else was wanted. -/
def misfit {α : Type} (d : Document) (path : List String) (expected : String) (n : Node) :
    Except Trouble α :=
  let placed (what : String) (place : Place) : Except Trouble α :=
    .error (.misfit what (some (path, place)))
  match n with
  | .scalar s style tag place => placed (scalarMisfit s style tag expected) place
  | .sequence _ place => placed ("invalid type: sequence, expected " ++ expected) place
  | .mapping _ place => placed ("invalid type: map, expected " ++ expected) place
  | .reference _ | .lost => d.cutOff

/-- Whether a scalar may be read as a number. -/
def canBeNumber (style : Style) (tag : Option String) : Bool :=
  style = .plain || (style = .literal && tag = some (tagBase ++ "int"))

/-- Reads a number of 64 bits. -/
def natural (d : Document) (path : List String) (expected : String) (n : Node) :
    Except Trouble Nat :=
  match d.target n with
  | .scalar s style tag place =>
    match (natural? s.toList).filter (· < 0x10000000000000000), canBeNumber style tag with
    | some v, true => .ok v
    | _, _ => d.misfit path expected (.scalar s style tag place)
  | other => d.misfit path expected other

/-- Reads a text. -/
def text (d : Document) (path : List String) (expected : String) (n : Node) :
    Except Trouble String :=
  match d.target n with
  | .scalar s _ _ _ => .ok s
  | other => d.misfit path expected other

mutual

/-- Whether no part of a node is lost. -/
def isWhole : Node → Bool
  | .lost => false
  | .sequence items _ => areWhole items
  | .mapping entries _ => arePairsWhole entries
  | _ => true

/-- Whether no part of some nodes is lost. -/
def areWhole : List Node → Bool
  | [] => true
  | n :: rest => isWhole n && areWhole rest

/-- Whether no part of some entries is lost. -/
def arePairsWhole : List (Node × Node) → Bool
  | [] => true
  | (k, v) :: rest => isWhole k && isWhole v && arePairsWhole rest

end

/-- Reads the entries of a record one after another. A field of another name is skipped, and no
field may come twice. -/
def entries {σ : Type} (d : Document) (path : List String)
    (field : String → Option (σ → Node → Except Trouble σ)) :
    (seen : List String) → List (Node × Node) → σ → Except Trouble σ
  | _, [], s => .ok s
  | seen, (k, v) :: rest, s => do
    let name ← d.text path "field identifier" k
    match field name with
    | none => if isWhole v then entries d path field seen rest s else d.cutOff
    | some read =>
      if name ∈ seen then throw (.misfit ("duplicate field \x60" ++ name ++ "\x60") none)
      else
        let s ← read s v
        entries d path field (name :: seen) rest s

/-- Reads a record, starting from what it is where no field is given. -/
def record {σ : Type} (d : Document) (path : List String) (expected : String)
    (field : String → Option (σ → Node → Except Trouble σ)) (s : σ) (n : Node) :
    Except Trouble σ :=
  match d.target n with
  | .mapping es place => (d.entries path field [] es s).mapError (Trouble.locate path place)
  | .scalar "" .plain _ _ => .ok s
  | other => d.misfit path expected other

end Document

/-- Reads the only document of a text. -/
def read {α : Type} (text : String) (root : Document → Node → Except Trouble α) :
    Except Trouble α := do
  let d := Document.ofText text
  let a ← root d d.root
  match d.cut with
  | some c => throw (.cut c)
  | none => if d.more then throw .several else pure a

end Yaml

end WireCall
