import WireCall.Bytes

/-!
# The checksum of a frame

A frame carries the CRC-32C (Castagnoli) of its header and body. The register starts with all bits
set, absorbs a byte at a time from its low end, and is inverted at the end. Each shift divides by
the generator polynomial, whose reflected form is `Checksum.generator`. As the checksum of some
bytes holds the register behind them, it can be continued with further bytes
(`Checksum.continued`).
-/

namespace WireCall

namespace Checksum

/-- The Castagnoli polynomial, with the coefficient of the highest power at the low end. -/
def generator : UInt32 := 0x82F63B78

/-- One step of the division: the low bit leaves the register, and where it is set the generator
is subtracted. -/
def shift (r : UInt32) : UInt32 :=
  if r &&& 1 = 0 then r >>> 1 else (r >>> 1) ^^^ generator

/-- The register after one more byte. -/
def absorb (r : UInt32) (b : UInt8) : UInt32 :=
  shift (shift (shift (shift (shift (shift (shift (shift (r ^^^ b.toUInt32))))))))

/-- The CRC-32C of the bytes. -/
def crc32c (b : Bytes) : UInt32 :=
  (b.foldl absorb 0xFFFFFFFF) ^^^ 0xFFFFFFFF

/-- The checksum of some bytes that stand behind those with the given checksum, together with them.
-/
def continued (crc : UInt32) (b : Bytes) : UInt32 :=
  (b.foldl absorb (crc ^^^ 0xFFFFFFFF)) ^^^ 0xFFFFFFFF

end Checksum

end WireCall
