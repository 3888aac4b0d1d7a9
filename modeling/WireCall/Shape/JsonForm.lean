import WireCall.Shape
import WireCall.Json.Read
import WireCall.Json.Skip
import WireCall.Json.Print

/-!
# The JSON form of values

Every value is also written as a JSON text, and read from one in a single pass: the reader knows
the shape and takes from the text what the shape asks for, so that a text that goes wrong in two
places is refused at the first. A record is read from an object, in which the fields come in any
order and members nobody asks for are passed over, or from a list of its fields.
-/

namespace WireCall

namespace JsonForm

open Json (Scan)

/-! ## Writing -/

/-- The name of a choice. -/
def choiceName (first : String) (more : List String) (i : Fin (more.length + 1)) : String :=
  (first :: more)[i]

mutual

/-- The text of a value. -/
def write : (s : Shape) → s.Value → Except Json.Misfit Bytes
  | .unit, _ => .ok Json.nullText
  | .bool, (b : Bool) => .ok (Json.boolText b)
  | .natural _, (x : BitVec _) => .ok (Numeral.text (.natural x.toNat))
  | .integer _, (x : BitVec _) =>
    .ok (Numeral.text (if x.toInt < 0 then .negative x.toInt else .natural x.toInt.toNat))
  | .double, (x : Double) => .ok (Numeral.text (.double x))
  | .text, (t : String) => .ok (Json.quote t)
  | .optional s, (o : Option s.Value) =>
    match o with
    | none => .ok Json.nullText
    | some a => write s a
  | .sequence s, (l : List s.Value) => do
    let parts ← l.mapM (write s)
    pure (Json.listText parts)
  | .mapping s, (m : Mapping s.Value) => do
    let parts ← m.entries.mapM fun p => do
      let b ← write s p.2
      pure (p.1, b)
    pure (Json.objectText parts)
  | .pair a b, (p : a.Value × b.Value) => do
    let x ← write a p.1
    let y ← write b p.2
    pure (Json.listText [x, y])
  | .choice first more, (i : Fin (more.length + 1)) =>
    .ok (Json.quote (choiceName first more i))
  | .record _ fields, (v : fields.Value) => do
    let parts ← writeFields fields v
    pure (Json.objectText parts)
  | .json, (j : Json) => .ok j.compact
  | .unwritable why, _ => .error (.unwritable why)

/-- The texts of the fields of a record, each under its name. -/
def writeFields : (fs : Fields) → fs.Value → Except Json.Misfit (List (String × Bytes))
  | .done, _ => .ok []
  | .field name _ s more, (p : s.Value × more.Value) => do
    let x ← write s p.1
    let rest ← writeFields more p.2
    pure ((name, x) :: rest)

end

/-- The JSON text of a value. -/
def encode (s : Shape) (v : s.Value) : Except Json.Error Bytes :=
  match write s v with
  | .ok b => .ok b
  | .error m => .error ⟨.misfit m, none⟩

/-! ## Misfits -/

/-- What a number is when something else was wanted. -/
def foundNumeral : Numeral → Json.Found
  | .natural n => .integer n
  | .negative i => .integer i
  | .double x => .double x

/-- Fails at a value of a kind that is not wanted. A literal, a number or a text is read before
it is refused, so that an error inside it is reported first. -/
def unexpected {α : Type} (wanted : String) : Scan α := do
  match ← Scan.peek with
  | none => Scan.failNext .expectedValue
  | some c =>
    if c = 0x6e then
      Scan.skipByte
      Scan.letters [0x75, 0x6c, 0x6c]
      Scan.misfit (.kind .null wanted)
    else if c = 0x74 then
      Scan.skipByte
      Scan.letters [0x72, 0x75, 0x65]
      Scan.misfit (.kind (.bool true) wanted)
    else if c = 0x66 then
      Scan.skipByte
      Scan.letters [0x61, 0x6c, 0x73, 0x65]
      Scan.misfit (.kind (.bool false) wanted)
    else if c = 0x2d then
      Scan.skipByte
      let n ← Scan.numeral false
      Scan.misfit (.kind (foundNumeral n) wanted)
    else if Json.isDigit c then
      let n ← Scan.numeral true
      Scan.misfit (.kind (foundNumeral n) wanted)
    else if c = 0x22 then
      Scan.skipByte
      let t ← Scan.text
      Scan.misfit (.kind (.text t) wanted)
    else if c = 0x5b then Scan.misfit (.kind .sequence wanted)
    else if c = 0x7b then Scan.misfit (.kind .map wanted)
    else Scan.failNext .expectedValue

/-! ## Reading -/

/-- Looks at the first byte of a value, which has to be there. -/
def firstByte : Scan UInt8 := do
  match ← Scan.peek with
  | none => Scan.failNext .endInValue
  | some c => pure c

/-- Reads the literal `null`. -/
def readUnit : Scan Unit := do
  let c ← firstByte
  if c = 0x6e then
    Scan.skipByte
    Scan.letters [0x75, 0x6c, 0x6c]
  else unexpected "unit"

/-- Reads a truth value. -/
def readBool : Scan Bool := do
  let c ← firstByte
  if c = 0x74 then
    Scan.skipByte
    Scan.letters [0x72, 0x75, 0x65]
    pure true
  else if c = 0x66 then
    Scan.skipByte
    Scan.letters [0x61, 0x6c, 0x73, 0x65]
    pure false
  else unexpected "a boolean"

/-- Reads a text, named in messages by what it is wanted for. -/
def readText (wanted : String) : Scan String := do
  let c ← firstByte
  if c = 0x22 then
    Scan.skipByte
    Scan.text
  else unexpected wanted

/-- Reads a number and takes from it what is wanted. -/
def readNumber {α : Type} (wanted : String) (take : Numeral → Except Json.Misfit α) : Scan α := do
  let c ← firstByte
  if c = 0x2d ∨ Json.isDigit c then
    let n ← if c = 0x2d then do Scan.skipByte; Scan.numeral false else Scan.numeral true
    match take n with
    | .ok a => pure a
    | .error m => Scan.misfit m
  else unexpected wanted

/-- The integer from zero on that a number is. -/
def toNatural (w : Width) (n : Numeral) : Except Json.Misfit (BitVec w.bits) :=
  match n with
  | .natural k =>
    if k < Nat.pow 2 w.bits then .ok (BitVec.ofNat _ k)
    else .error (.value (.integer k) (Shape.naturalName w))
  | .negative i => .error (.value (.integer i) (Shape.naturalName w))
  | .double x => .error (.kind (.double x) (Shape.naturalName w))

/-- The integer of either sign that a number is. -/
def toInteger (w : Width) (n : Numeral) : Except Json.Misfit (BitVec w.bits) :=
  match n with
  | .natural k =>
    if k < Nat.pow 2 (w.bits - 1) then .ok (BitVec.ofNat _ k)
    else .error (.value (.integer k) (Shape.integerName w))
  | .negative i =>
    if -(Nat.pow 2 (w.bits - 1) : Int) ≤ i then .ok (BitVec.ofInt _ i)
    else .error (.value (.integer i) (Shape.integerName w))
  | .double x => .error (.kind (.double x) (Shape.integerName w))

/-- The double nearest to a number. -/
def toDouble : Numeral → Except Json.Misfit Double
  | .natural k => .ok (Double.ofNat k)
  | .negative i => .ok (Double.ofNat i.natAbs).negate
  | .double x => .ok x

/-- Goes one level down, unless lists and objects already nest too deep. -/
def descend {α : Type} (depth : Nat) (inside : Nat → Scan α) : Scan α :=
  match depth with
  | 0 => Scan.failNext .recursionLimit
  | depth + 1 => do
    Scan.skipByte
    inside depth

/-- The number of a name among the choices. -/
def choice? (first : String) (more : List String) (name : String) :
    Option (Fin (more.length + 1)) :=
  (first :: more).finIdxOf? name

/-- Reads the name of a choice. -/
def readName (first : String) (more : List String) : Scan (Fin (more.length + 1)) := do
  let name ← readText "variant identifier"
  match choice? first more name with
  | some i => pure i
  | none => Scan.misfit (.unknownChoice name (first :: more))

/-- Reads a choice: its name, or an object with the name as its only member and nothing in it. -/
def readChoice (first : String) (more : List String) (depth : Nat) :
    Scan (Fin (more.length + 1)) := do
  let c ← firstByte
  if c = 0x7b then
    descend depth fun _ => do
      let i ← readName first more
      Scan.colon
      readUnit
      match ← Scan.peek with
      | some 0x7d =>
        Scan.skipByte
        pure i
      | some _ => Scan.failHere .expectedValue
      | none => Scan.failHere .endInObject
  else if c = 0x22 then readName first more
  else Scan.failNext .expectedValue

/-- What the fields of a record have got so far. -/
def Partial : Fields → Type
  | .done => Unit
  | .field _ _ s more => Option s.Value × Partial more

/-- No field has got anything yet. -/
def Partial.none : (fs : Fields) → Partial fs
  | .done => ()
  | .field _ _ _ more => ((Option.none, Partial.none more) : Option _ × Partial more)

/-- The value of a field for which nothing was given. -/
def missing? : Presence → (s : Shape) → Option s.Value
  | .blankIfMissing, s => some s.blank
  | .required, .optional s => some (Option.none : Option s.Value)
  | .required, _ => Option.none

/-- The values of all fields, once every member has been read. -/
def Partial.complete : (fs : Fields) → Partial fs → Except Json.Misfit fs.Value
  | .done, _ => .ok ()
  | .field name presence s more, (p : Option s.Value × Partial more) => do
    let a ←
      match p.1 with
      | some a => pure a
      | Option.none =>
        match missing? presence s with
        | some a => pure a
        | Option.none => throw (.missingField name)
    let rest ← Partial.complete more p.2
    pure ((a, rest) : s.Value × more.Value)

/-- Reads members until none follows, each of them adding to what was read before. -/
def foldMembers {σ : Type} (member : String → σ → Scan σ) :
    (limit : Nat) → (first : Bool) → σ → Scan σ
  | 0, _, _ => Scan.failHere .endInObject
  | limit + 1, first, acc => do
    if ← Scan.nextMember first then
      Scan.skipByte
      let name ← Scan.text
      let acc ← member name acc
      foldMembers member limit false acc
    else pure acc

mutual

/-- Reads a value of the shape, in which lists and objects nest at most `depth` deep. No list or
object has `limit` parts. -/
def read (limit : Nat) : (s : Shape) → (depth : Nat) → Scan s.Value
  | .unit, _ => readUnit
  | .bool, _ => readBool
  | .natural w, _ => readNumber (Shape.naturalName w) (toNatural w)
  | .integer w, _ => readNumber (Shape.integerName w) (toInteger w)
  | .double, _ => readNumber "f64" toDouble
  | .text, _ => readText "a string"
  | .optional s, depth => do
    match ← Scan.peek with
    | some 0x6e =>
      Scan.skipByte
      Scan.letters [0x75, 0x6c, 0x6c]
      pure (Option.none : Option s.Value)
    | _ =>
      let a ← read limit s depth
      pure (some a : Option s.Value)
  | .sequence s, depth => do
    let c ← firstByte
    if c = 0x5b then
      descend depth fun depth =>
        Scan.upTo Scan.closeList (Scan.elements (read limit s depth) limit true [])
    else unexpected "a sequence"
  | .mapping s, depth => do
    let c ← firstByte
    if c = 0x7b then
      descend depth fun depth =>
        Scan.upTo Scan.closeObject do
          let entries ← Scan.members (Scan.memberWith (read limit s depth)) limit true []
          pure (Mapping.ofList entries)
    else unexpected "a map"
  | .pair a b, depth => do
    let c ← firstByte
    if c = 0x5b then
      descend depth fun depth =>
        Scan.upTo Scan.closeList do
          if ← Scan.nextElement true then
            let x ← read limit a depth
            if ← Scan.nextElement false then
              let y ← read limit b depth
              pure ((x, y) : a.Value × b.Value)
            else Scan.unsettled (.length 1 "a tuple of size 2")
          else Scan.unsettled (.length 0 "a tuple of size 2")
    else unexpected "a tuple of size 2"
  | .choice first more, depth => readChoice first more depth
  | .record name fields, depth => do
    let c ← firstByte
    if c = 0x5b then
      descend depth fun depth =>
        Scan.upTo Scan.closeList (readItems limit name fields.count fields 0 depth)
    else if c = 0x7b then
      descend depth fun depth =>
        Scan.upTo Scan.closeObject do
          let parts ← foldMembers (fun key acc => readField limit fields key acc depth) limit true
            (Partial.none fields)
          match Partial.complete fields parts with
          | .ok v => pure v
          | .error m => Scan.unsettled m
    else unexpected ("struct " ++ name)
  | .json, depth => Scan.value limit depth
  | .unwritable why, _ => Scan.misfit (.unwritable why)

/-- Reads the fields of a record from the elements of a list, `index` of which have been read. -/
def readItems (limit : Nat) (record : String) (count : Nat) :
    (fs : Fields) → (index depth : Nat) → Scan fs.Value
  | .done, _, _ => pure ()
  | .field _ presence s more, index, depth => do
    let x ←
      if ← Scan.nextElement (index == 0) then read limit s depth
      else
        match presence with
        | .blankIfMissing => pure s.blank
        | .required =>
          Scan.unsettled (.length index
            ("struct " ++ record ++ " with " ++ toString count ++ " elements"))
    let rest ← readItems limit record count more (index + 1) depth
    pure ((x, rest) : s.Value × more.Value)

/-- Reads the member with the given name, behind the name, into the field it belongs to. -/
def readField (limit : Nat) :
    (fs : Fields) → (key : String) → Partial fs → (depth : Nat) → Scan (Partial fs)
  | .done, _, p, _ => do
    Scan.colon
    Scan.skipValue
    pure p
  | .field name _ s more, key, (p : Option s.Value × Partial more), depth => do
    if key = name then
      if p.1.isSome then Scan.unsettled (.duplicateField name)
      else
        Scan.colon
        let a ← read limit s depth
        pure ((some a, p.2) : Option s.Value × Partial more)
    else
      let rest ← readField limit more key p.2 depth
      pure ((p.1, rest) : Option s.Value × Partial more)

end

/-- The value that a text denotes. -/
def decode (s : Shape) (b : Bytes) : Except Json.Error s.Value :=
  Scan.whole (read (b.length + 1) s Json.maxDepth) b

end JsonForm

end WireCall
