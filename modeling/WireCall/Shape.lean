import WireCall.Json

/-!
# Shapes of values

An argument or a reply has a *shape*, which says what values it can take and how they are written
and read. Shapes are closed under options, sequences, mappings, pairs and records, so the readers
and writers of the two encodings are functions on shapes, and what is said about them is said once
for all values that can travel.
-/

namespace WireCall

/-- The width of a fixed-width integer. -/
inductive Width where
  | w8
  | w16
  | w32
  | w64
  deriving DecidableEq, Repr

/-- The number of bits of a width. -/
def Width.bits : Width → Nat
  | .w8 => 8
  | .w16 => 16
  | .w32 => 32
  | .w64 => 64

/-- Whether a field has to be present where fields are named or may end early. -/
inductive Presence where
  /-- the field has to be there, unless it is an option -/
  | required
  /-- a field that is not there takes its blank value -/
  | blankIfMissing
  deriving DecidableEq, Repr

mutual

/-- What values a part of a message can take. -/
inductive Shape where
  | unit
  | bool
  /-- integers from zero on -/
  | natural (w : Width)
  /-- integers of either sign -/
  | integer (w : Width)
  | double
  | text
  | optional (s : Shape)
  | sequence (s : Shape)
  /-- entries under text keys -/
  | mapping (s : Shape)
  | pair (a b : Shape)
  /-- one of some names -/
  | choice (first : String) (more : List String)
  /-- named fields under the name of a record -/
  | record (name : String) (fields : Fields)
  /-- any JSON value -/
  | json
  /-- values that have no written form -/
  | unwritable (why : String)

/-- The fields of a record, in their order. -/
inductive Fields where
  | done
  | field (name : String) (presence : Presence) (s : Shape) (more : Fields)

end

mutual

/-- The values of a shape. -/
def Shape.Value : Shape → Type
  | .unit => Unit
  | .bool => Bool
  | .natural w => BitVec w.bits
  | .integer w => BitVec w.bits
  | .double => Double
  | .text => String
  | .optional s => Option s.Value
  | .sequence s => List s.Value
  | .mapping s => Mapping s.Value
  | .pair a b => a.Value × b.Value
  | .choice _ more => Fin (more.length + 1)
  | .record _ fields => fields.Value
  | .json => Json
  | .unwritable _ => Unit

/-- The values of the fields of a record, one after another. -/
def Fields.Value : Fields → Type
  | .done => Unit
  | .field _ _ s more => s.Value × more.Value

end

mutual

/-- The value that a field takes where nothing is given for it. -/
def Shape.blank : (s : Shape) → s.Value
  | .unit => ()
  | .bool => false
  | .natural w => (0 : BitVec w.bits)
  | .integer w => (0 : BitVec w.bits)
  | .double => ⟨0⟩
  | .text => ""
  | .optional _ => (none : Option _)
  | .sequence _ => ([] : List _)
  | .mapping _ => (Mapping.empty : Mapping _)
  | .pair a b => (a.blank, b.blank)
  | .choice _ more => (0 : Fin (more.length + 1))
  | .record _ fields => fields.blank
  | .json => Json.null
  | .unwritable _ => ()

/-- The blank values of all fields. -/
def Fields.blank : (fs : Fields) → fs.Value
  | .done => ()
  | .field _ _ s more => (s.blank, more.blank)

end

/-- A value together with its shape. -/
structure Datum where
  shape : Shape
  value : shape.Value

/-- The number of fields of a record. -/
def Fields.count : Fields → Nat
  | .done => 0
  | .field _ _ _ more => more.count + 1

namespace Shape

/-- The names of a choice. -/
def choices (first : String) (more : List String) : List String := first :: more


/-- How a width is named where an integer from zero on is wanted. -/
def naturalName : Width → String
  | .w8 => "u8"
  | .w16 => "u16"
  | .w32 => "u32"
  | .w64 => "u64"

/-- How a width is named where an integer of either sign is wanted. -/
def integerName : Width → String
  | .w8 => "i8"
  | .w16 => "i16"
  | .w32 => "i32"
  | .w64 => "i64"

end Shape

end WireCall
