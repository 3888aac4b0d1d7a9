import WireCall.Shape
import WireCall.Varint

/-!
# The compact encoding

Values are written one after another without names or marks of their kind, so only a reader that
knows the shape can tell them apart. Integers of more than one byte are varints, texts, sequences
and mappings start with their length, an option starts with a zero or a one, and a choice is its
number. Whatever follows a value is left.
-/

namespace WireCall

namespace Compact

/-- Why a value cannot be written or read. -/
inductive Error where
  | endOfInput
  | badVarint
  | badBool
  | badOption
  | badText
  /-- the value refuses to be written -/
  | refusedToWrite
  /-- the bytes spell no value of the shape -/
  | refusedToRead
  /-- the shape cannot be told from the bytes alone -/
  | unsupported
  deriving DecidableEq, Repr

/-- The wording of an error. -/
def Error.message : Error → String
  | .endOfInput => "Hit the end of buffer, expected more data"
  | .badVarint =>
    "Found a varint that didn't terminate. Is the usize too big for this platform?"
  | .badBool => "Found a bool that wasn't 0 or 1"
  | .badOption => "Found an Option discriminant that wasn't 0 or 1"
  | .badText => "Tried to parse invalid utf-8"
  | .refusedToWrite => "Serde Serialization Error"
  | .refusedToRead => "Serde Deserialization Error"
  | .unsupported => "This is a feature that PostCard will never implement"

/-! ## Writing -/

/-- A length in front of what it counts. -/
def counted (n : Nat) (content : Bytes) : Bytes := Varint.encode n ++ content

/-- A text. -/
def writeText (s : String) : Bytes :=
  let b := Bytes.ofText s
  counted b.length b

/-- An integer from zero on. -/
def writeNatural (w : Width) (x : BitVec w.bits) : Bytes :=
  match w with
  | .w8 => [UInt8.ofNat x.toNat]
  | _ => Varint.encode x.toNat

/-- An integer of either sign. -/
def writeInteger (w : Width) (x : BitVec w.bits) : Bytes :=
  match w with
  | .w8 => [UInt8.ofNat x.toNat]
  | _ => Varint.encode (ZigZag.fold x.toInt)

/-- A number of a JSON value. -/
def writeNumeral : Numeral → Bytes
  | .natural n => Varint.encode n
  | .negative i => Varint.encode (ZigZag.fold i)
  | .double x => Bytes.ofNatLE 8 x.bits.toNat

mutual

/-- A JSON value, by the kind it happens to have. -/
def writeJson : Json → Bytes
  | .null => []
  | .bool b => [if b then 1 else 0]
  | .number n => writeNumeral n
  | .text s => writeText s
  | .array items => counted items.length (writeJsonItems items)
  | .object members => counted members.length (writeJsonMembers members)

/-- JSON values one after another. -/
def writeJsonItems : List Json → Bytes
  | [] => []
  | j :: rest => writeJson j ++ writeJsonItems rest

/-- The members of a JSON object one after another. -/
def writeJsonMembers : List (String × Json) → Bytes
  | [] => []
  | (name, j) :: rest => writeText name ++ writeJson j ++ writeJsonMembers rest

end

mutual

/-- The bytes of a value. -/
def write : (s : Shape) → s.Value → Except Error Bytes
  | .unit, _ => .ok []
  | .bool, (b : Bool) => .ok [if b then 1 else 0]
  | .natural w, (x : BitVec w.bits) => .ok (writeNatural w x)
  | .integer w, (x : BitVec w.bits) => .ok (writeInteger w x)
  | .double, (x : Double) => .ok (Bytes.ofNatLE 8 x.bits.toNat)
  | .text, (t : String) => .ok (writeText t)
  | .optional s, (o : Option s.Value) =>
    match o with
    | none => .ok [0]
    | some a => do
      let b ← write s a
      pure (1 :: b)
  | .sequence s, (l : List s.Value) => do
    let parts ← l.mapM (write s)
    pure (counted l.length parts.flatten)
  | .mapping s, (m : Mapping s.Value) => do
    let parts ← m.entries.mapM fun p => do
      let b ← write s p.2
      pure (writeText p.1 ++ b)
    pure (counted m.entries.length parts.flatten)
  | .pair a b, (p : a.Value × b.Value) => do
    let x ← write a p.1
    let y ← write b p.2
    pure (x ++ y)
  | .choice _ _, (i : Fin _) => .ok (Varint.encode i.val)
  | .record _ fields, (v : fields.Value) => writeFields fields v
  | .json, (j : Json) => .ok (writeJson j)
  | .unwritable _, _ => .error .refusedToWrite

/-- The bytes of the fields of a record. -/
def writeFields : (fs : Fields) → fs.Value → Except Error Bytes
  | .done, _ => .ok []
  | .field _ _ s more, (p : s.Value × more.Value) => do
    let x ← write s p.1
    let y ← writeFields more p.2
    pure (x ++ y)

end

/-! ## Reading -/

/-- A reader of the front of some bytes. -/
abbrev Read (α : Type) := StateT Bytes (Except Error) α

/-- One byte. -/
def readByte : Read UInt8 := fun s =>
  match s with
  | [] => .error .endOfInput
  | b :: rest => .ok (b, rest)

/-- A varint of at most the given number of bits. -/
def readVarint (bits : Nat) : Read Nat := fun s =>
  match Varint.read bits s with
  | .ok r => .ok r
  | .error .endOfInput => .error .endOfInput
  | .error .unterminated => .error .badVarint

/-- The given number of bytes. -/
def readBytes (n : Nat) : Read Bytes := fun s =>
  let (front, rest) := s.splitAt n
  if front.length < n then .error .endOfInput else .ok (front, rest)

/-- A length. -/
def readLength : Read Nat := readVarint 64

/-- A text. -/
def readText : Read String := do
  let n ← readLength
  let b ← readBytes n
  match Bytes.toText? b with
  | some s => pure s
  | none => throw .badText

/-- An integer from zero on. -/
def readNatural (w : Width) : Read (BitVec w.bits) :=
  match w with
  | .w8 => do
    let b ← readByte
    pure (BitVec.ofNat _ b.toNat)
  | w => do
    let n ← readVarint w.bits
    pure (BitVec.ofNat _ n)

/-- An integer of either sign. -/
def readInteger (w : Width) : Read (BitVec w.bits) :=
  match w with
  | .w8 => do
    let b ← readByte
    pure (BitVec.ofNat _ b.toNat)
  | w => do
    let n ← readVarint w.bits
    pure (BitVec.ofInt _ (ZigZag.unfold n))

/-- The given number of values. -/
def readMany {α : Type} (item : Read α) : (n : Nat) → (acc : List α) → Read (List α)
  | 0, acc => pure acc.reverse
  | n + 1, acc => do
    let a ← item
    readMany item n (a :: acc)

/-- The entry of a mapping. -/
def readEntry {α : Type} (item : Read α) : Read (String × α) := do
  let name ← readText
  let a ← item
  pure (name, a)

mutual

/-- Reads a value of the shape from the front. -/
def read : (s : Shape) → Read s.Value
  | .unit => pure ()
  | .bool => do
    let b ← readByte
    if b = 0 then pure false
    else if b = 1 then pure true
    else throw .badBool
  | .natural w => readNatural w
  | .integer w => readInteger w
  | .double => do
    let b ← readBytes 8
    pure (Double.mk (BitVec.ofNat 64 (Bytes.toNatLE b)))
  | .text => readText
  | .optional s => do
    let b ← readByte
    if b = 0 then pure (none : Option s.Value)
    else if b = 1 then
      let a ← read s
      pure (some a : Option s.Value)
    else throw .badOption
  | .sequence s => do
    let n ← readLength
    readMany (read s) n []
  | .mapping s => do
    let n ← readLength
    let entries ← readMany (readEntry (read s)) n []
    pure (Mapping.ofList entries)
  | .pair a b => do
    let x ← read a
    let y ← read b
    pure ((x, y) : a.Value × b.Value)
  | .choice _ more => do
    let n ← readVarint 32
    if h : n < more.length + 1 then pure (⟨n, h⟩ : Fin (more.length + 1))
    else throw .refusedToRead
  | .record _ fields => readFields fields
  | .json => throw .unsupported
  | .unwritable _ => throw .refusedToRead

/-- Reads the fields of a record from the front. -/
def readFields : (fs : Fields) → Read fs.Value
  | .done => pure ()
  | .field _ _ s more => do
    let x ← read s
    let y ← readFields more
    pure ((x, y) : s.Value × more.Value)

end

/-- The value that some bytes start with. -/
def decode (s : Shape) (b : Bytes) : Except Error s.Value :=
  match read s b with
  | .ok (v, _) => .ok v
  | .error e => .error e

end Compact

end WireCall
