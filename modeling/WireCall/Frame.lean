import WireCall.Checksum
import WireCall.WireError

/-!
# Frames

A message travels as one frame: a fixed part of 18 bytes, the encoded header and the encoded body.
The fixed part holds the magic bytes, the version, the flags, the two lengths and the checksum of
header and body, all numbers with the most significant byte first.

`Frame.decode` looks at the front of a buffer. It takes nothing from the buffer while more bytes
are needed, nor where the fixed part is refused; a frame that is complete leaves the buffer, also
if its checksum does not match, so that the frame behind it can still be read.
-/

namespace WireCall

/-- The flags of a frame. -/
structure Flags where
  /-- whether the checksum is present -/
  checksummed : Bool
  deriving DecidableEq, Repr

namespace Flags

/-- No flags. -/
def none : Flags := ⟨false⟩

/-- The same flags, with the checksum present. -/
def withChecksum (_ : Flags) : Flags := ⟨true⟩

/-- The flags as bits. -/
def bits (f : Flags) : UInt16 := if f.checksummed then 1 else 0

/-- The flags that some bits stand for. Bits without a meaning are refused. -/
def ofBits (b : UInt16) : Except WireError Flags :=
  if b = 0 then .ok ⟨false⟩
  else if b = 1 then .ok ⟨true⟩
  else .error (.invalidFlags b)

end Flags

/-- A message on the wire, header and body still encoded. -/
structure Frame where
  version : UInt16
  flags : Flags
  header : Bytes
  body : Bytes
  deriving DecidableEq

namespace Frame

/-- The bytes `MRPC`, with which every frame starts. -/
def magic : Bytes := [0x4d, 0x52, 0x50, 0x43]

/-- The version of the protocol. -/
def currentVersion : UInt16 := 1

/-- The length of the fixed part. -/
def fixedLength : Nat := 18

/-- The longest body. -/
def maxBody : Nat := 16 * 1024 * 1024

/-- The longest header. -/
def maxHeader : Nat := 65535

/-- A frame of the current version with a checksum. -/
def make (header body : Bytes) : Frame := ⟨currentVersion, ⟨true⟩, header, body⟩

/-- The length of the frame on the wire. -/
def encodedLength (f : Frame) : Nat := fixedLength + f.header.length + f.body.length

/-- The checksum of a header and, continued behind it, a body. -/
def checksum (header body : Bytes) : UInt32 := Checksum.continued (Checksum.crc32c header) body

/-! ## The fixed part -/

/-- The fixed part of a frame. -/
structure Fixed where
  version : UInt16
  flags : Flags
  headerLength : Nat
  bodyLength : Nat
  crc : UInt32
  deriving DecidableEq

/-- The length of the whole frame. -/
def Fixed.total (p : Fixed) : Nat := fixedLength + p.headerLength + p.bodyLength

/-- The bytes of a fixed part. -/
def Fixed.encode (p : Fixed) : Bytes :=
  magic ++ Bytes.ofNatBE 2 p.version.toNat ++ Bytes.ofNatBE 2 p.flags.bits.toNat
    ++ Bytes.ofNatBE 2 p.headerLength ++ Bytes.ofNatBE 4 p.bodyLength
    ++ Bytes.ofNatBE 4 p.crc.toNat

/-- The `n` bytes of a buffer from the given place on. -/
def slice (b : Bytes) (start n : Nat) : Bytes := (b.drop start).take n

/-- The fixed part at the front of a buffer of at least its length. -/
def Fixed.decode (b : Bytes) : Except WireError Fixed :=
  let found := slice b 0 4
  let version := UInt16.ofNat (Bytes.toNatBE (slice b 4 2))
  if found ≠ magic then .error (.invalidMagic found)
  else if version ≠ currentVersion then .error (.unsupportedVersion version)
  else
    match Flags.ofBits (UInt16.ofNat (Bytes.toNatBE (slice b 6 2))) with
    | .error e => .error e
    | .ok flags =>
      let headerLength := Bytes.toNatBE (slice b 8 2)
      let bodyLength := Bytes.toNatBE (slice b 10 4)
      let crc := UInt32.ofNat (Bytes.toNatBE (slice b 14 4))
      if bodyLength > maxBody then .error (.frameTooLarge bodyLength maxBody)
      else .ok ⟨version, flags, headerLength, bodyLength, crc⟩

/-! ## Encoding and decoding -/

/-- The size that is reported for a part that is too long. -/
def reportedSize (n : Nat) : Nat := min n 0xffffffff

/-- The bytes of a frame. -/
def encode (f : Frame) : Except WireError Bytes :=
  if f.body.length > maxBody then .error (.frameTooLarge (reportedSize f.body.length) maxBody)
  else if f.header.length > maxHeader then
    .error (.frameTooLarge (reportedSize f.header.length) maxHeader)
  else
    let crc := if f.flags.checksummed then checksum f.header f.body else 0
    let fixed : Fixed := ⟨f.version, f.flags, f.header.length, f.body.length, crc⟩
    .ok (fixed.encode ++ (f.header ++ f.body))

/-- The frame at the front of a buffer, or nothing if more bytes are needed, and what is left in
the buffer. -/
def decode (buffer : Bytes) : Except WireError (Option Frame) × Bytes :=
  if buffer.length < fixedLength then (.ok Option.none, buffer)
  else
    match Fixed.decode buffer with
    | .error e => (.error e, buffer)
    | .ok fixed =>
      if buffer.length < fixed.total then (.ok Option.none, buffer)
      else
        let header := slice buffer fixedLength fixed.headerLength
        let body := slice buffer (fixedLength + fixed.headerLength) fixed.bodyLength
        let rest := buffer.drop fixed.total
        let actual := checksum header body
        if fixed.flags.checksummed ∧ actual ≠ fixed.crc then
          (.error (.crcMismatch fixed.crc actual), rest)
        else (.ok (some ⟨fixed.version, fixed.flags, header, body⟩), rest)

end Frame

end WireCall
