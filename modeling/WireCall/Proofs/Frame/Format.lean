import WireCall.Proofs.Bytes
import WireCall.Proofs.Frame

/-!
# The frames that are read are those that are written

A frame goes into bytes just if its header and its body are short enough for their length fields,
and these bytes are read back. The other way round, where a frame is read the bytes that leave the
buffer are those that it is written with; the four bytes of the checksum may differ where the frame
has none, as then nobody looks at them (`Frame.decode_eq_iff`). So the format has one spelling for
each frame, up to a checksum that is not there.
-/

namespace WireCall

namespace Frame

/-! ## Slices side by side -/

theorem length_slice {b : Bytes} {start n : Nat} (h : start + n ≤ b.length) :
    (slice b start n).length = n := by
  rw [slice, List.length_take, List.length_drop]
  omega

theorem slice_append_slice (b : Bytes) (start n m : Nat) :
    slice b start n ++ slice b (start + n) m = slice b start (n + m) := by
  rw [slice, slice, slice, List.take_add, List.drop_drop]

/-- A number that was read from a buffer is written with the same bytes. -/
theorem ofNatBE_slice {b : Bytes} {start k : Nat} (h : start + k ≤ b.length) :
    Bytes.ofNatBE k (Bytes.toNatBE (slice b start k)) = slice b start k :=
  Bytes.ofNatBE_toNatBE (length_slice h)

theorem toNatBE_slice_lt {b : Bytes} {start k : Nat} (h : start + k ≤ b.length) :
    Bytes.toNatBE (slice b start k) < Nat.pow 256 k := by
  have hlt := Bytes.toNatBE_lt (slice b start k)
  rwa [length_slice h] at hlt

/-! ## The fixed part -/

theorem Flags.bits_of_ofBits {n : UInt16} {f : Flags} (h : Flags.ofBits n = .ok f) :
    f.bits = n := by
  rw [Flags.ofBits] at h
  split at h
  · rename_i hzero
    obtain rfl := Except.ok.inj h
    exact hzero.symm
  split at h
  · rename_i hone
    obtain rfl := Except.ok.inj h
    exact hone.symm
  · cases h

/-- **A fixed part that is read is written with the same bytes**, and keeps to all limits. -/
theorem Fixed.encode_of_decode {b : Bytes} {p : Fixed} (hlong : fixedLength ≤ b.length)
    (h : Fixed.decode b = .ok p) :
    p.encode = b.take fixedLength ∧ p.version = currentVersion ∧ p.headerLength ≤ maxHeader ∧
      p.bodyLength ≤ maxBody := by
  have hbytes : 18 ≤ b.length := hlong
  have hversion := UInt16.toNat_ofNat_of_lt' (toNatBE_slice_lt (show 4 + 2 ≤ b.length by omega))
  have hflags := UInt16.toNat_ofNat_of_lt' (toNatBE_slice_lt (show 6 + 2 ≤ b.length by omega))
  have hcrc := UInt32.toNat_ofNat_of_lt' (toNatBE_slice_lt (show 14 + 4 ≤ b.length by omega))
  have hheader := toNatBE_slice_lt (show 8 + 2 ≤ b.length by omega)
  simp only [Fixed.decode] at h
  split at h
  · cases h
  rename_i hmagic
  split at h
  · cases h
  rename_i hcurrent
  split at h
  · cases h
  rename_i flags hof
  split at h
  · cases h
  rename_i hbody
  obtain rfl := Except.ok.inj h
  refine ⟨?_, Decidable.not_not.mp hcurrent, Nat.le_of_lt_succ hheader, Nat.not_lt.mp hbody⟩
  calc Fixed.encode _
      = slice b 0 4 ++ slice b 4 2 ++ slice b 6 2 ++ slice b 8 2 ++ slice b 10 4
          ++ slice b 14 4 := by
        simp only [Fixed.encode, Flags.bits_of_ofBits hof, hversion, hflags, hcrc]
        rw [ofNatBE_slice (by omega), ofNatBE_slice (by omega), ofNatBE_slice (by omega),
          ofNatBE_slice (by omega), ofNatBE_slice (by omega), Decidable.not_not.mp hmagic]
    _ = slice b 0 18 := by
        rw [slice_append_slice, slice_append_slice, slice_append_slice, slice_append_slice,
          slice_append_slice]
    _ = b.take fixedLength := rfl

/-- The place of the checksum in the fixed part. -/
def checksumPlace : Nat := 14

/-- The checksum is the end of the fixed part, and nothing in front depends on it. -/
theorem Fixed.encode_crc (p : Fixed) (crc : UInt32) :
    ({ p with crc } : Fixed).encode = p.encode.take checksumPlace ++ Bytes.ofNatBE 4 crc.toNat := by
  rw [Fixed.encode, Fixed.encode, List.take_left']
  simp [magic, checksumPlace]

/-- What stands in front of the checksum is in the fixed part. -/
theorem Fixed.take_encode (p : Fixed) (t : Bytes) :
    (p.encode ++ t).take checksumPlace = p.encode.take checksumPlace :=
  List.take_append_of_le_length (by rw [p.length_encode]; decide)

theorem Fixed.take_encode_crc (p : Fixed) (crc : UInt32) :
    ({ p with crc } : Fixed).encode.take checksumPlace = p.encode.take checksumPlace := by
  rw [Fixed.encode_crc, List.take_left']
  rw [List.length_take, p.length_encode]
  rfl

/-! ## The bytes of a frame -/

/-- **Bytes that agree except for the checksum.** -/
structure AgreeButChecksum (a b : Bytes) : Prop where
  length : a.length = b.length
  before : a.take checksumPlace = b.take checksumPlace
  behind : a.drop fixedLength = b.drop fixedLength

/-- Another checksum in the fixed part. -/
theorem agree_encode_crc (p : Fixed) (crc : UInt32) (t : Bytes) :
    AgreeButChecksum (p.encode ++ t) (({ p with crc } : Fixed).encode ++ t) where
  length := by rw [List.length_append, List.length_append, p.length_encode, Fixed.length_encode]
  before := by
    rw [Fixed.take_encode, Fixed.take_encode]
    exact (p.take_encode_crc crc).symm
  behind := by rw [List.drop_left' p.length_encode, List.drop_left' (Fixed.length_encode _)]

/-- Bytes that agree with those behind a fixed part have a fixed part with another checksum. -/
theorem AgreeButChecksum.eq_encode_crc {b t : Bytes} {p : Fixed}
    (h : AgreeButChecksum b (p.encode ++ t)) :
    b = ({ p with crc := UInt32.ofNat (Bytes.toNatBE (slice b checksumPlace 4)) } : Fixed).encode
      ++ t := by
  have hlong : checksumPlace + 4 ≤ b.length := by
    rw [h.length, List.length_append, Fixed.length_encode]
    exact Nat.le_add_right fixedLength t.length
  have hbefore : b.take checksumPlace = p.encode.take checksumPlace := by
    rw [h.before, Fixed.take_encode]
  have hbehind : b.drop fixedLength = t := by
    rw [h.behind, List.drop_left' (Fixed.length_encode p)]
  have hcrc := UInt32.toNat_ofNat_of_lt' (toNatBE_slice_lt hlong)
  calc b = b.take fixedLength ++ b.drop fixedLength := (List.take_append_drop _ _).symm
    _ = (slice b 0 checksumPlace ++ slice b checksumPlace 4) ++ b.drop fixedLength :=
        congrArg (· ++ b.drop fixedLength) (slice_append_slice b 0 checksumPlace 4).symm
    _ = _ := by
        rw [hbehind, Fixed.encode_crc, hcrc, ofNatBE_slice hlong, ← hbefore]
        rfl

/-- **A frame that is read is written with the bytes that it was read from**, up to the checksum if
it has none. -/
theorem encode_of_decode {b rest : Bytes} {f : Frame} (h : decode b = (.ok (some f), rest)) :
    f.version = currentVersion ∧ ∃ front written, b = front ++ rest ∧ f.encode = .ok written ∧
      AgreeButChecksum front written ∧ (f.flags.checksummed = true → front = written) := by
  cases Frame.front b with
  | more hdecode => cases hdecode.symm.trans h
  | refused hlong hfixed => cases (decode_of_refused hlong hfixed).symm.trans h
  | @whole p hlong hfixed htotal =>
    obtain ⟨hencode, hversion, hheader, hbody⟩ := Fixed.encode_of_decode hlong hfixed
    rw [decode_of_total hlong hfixed htotal] at h
    obtain ⟨hf, rfl⟩ := Prod.mk.inj h
    have hparts : fixedLength + p.headerLength + p.bodyLength ≤ b.length := htotal
    have hheader' : (slice b fixedLength p.headerLength).length = p.headerLength :=
      length_slice (by omega)
    have hbody' : (slice b (fixedLength + p.headerLength) p.bodyLength).length = p.bodyLength :=
      length_slice (by omega)
    have hfront : b.take p.total = p.encode ++ (slice b fixedLength p.headerLength ++
        slice b (fixedLength + p.headerLength) p.bodyLength) := by
      rw [hencode, slice_append_slice, Fixed.total, Nat.add_assoc, List.take_add]
      rfl
    split at hf
    · cases hf
    rename_i hcrc
    obtain rfl := Option.some.inj (Except.ok.inj hf)
    refine ⟨hversion, b.take p.total, _, (List.take_append_drop _ _).symm,
      encode_of_fits (hheader'.symm ▸ hheader) (hbody'.symm ▸ hbody), ?_, ?_⟩
    · rw [hfront]
      simp only [fixed, hheader', hbody']
      exact agree_encode_crc p _ _
    · intro hchecksummed
      have hsame : checksum (slice b fixedLength p.headerLength)
          (slice b (fixedLength + p.headerLength) p.bodyLength) = p.crc :=
        Decidable.not_not.mp fun hne => hcrc ⟨hchecksummed, hne⟩
      simp only [fixed, hheader', hbody', hsame]
      rw [hfront, if_pos hchecksummed]

/-- **A frame is read from all bytes that agree with its own**, up to the checksum if it has none.
-/
theorem decode_of_agree {f : Frame} {front written : Bytes} (hversion : f.version = currentVersion)
    (hwritten : f.encode = .ok written) (hagree : AgreeButChecksum front written)
    (hsame : f.flags.checksummed = true → front = written) (t : Bytes) :
    decode (front ++ t) = (.ok (some f), t) := by
  by_cases hchecksummed : f.flags.checksummed = true
  · rw [hsame hchecksummed, decode_encode hversion hwritten]
  · obtain ⟨hheader, hbody, -⟩ := length_encode hwritten
    rw [encode_of_fits hheader hbody] at hwritten
    obtain rfl := Except.ok.inj hwritten
    rw [hagree.eq_encode_crc, List.append_assoc, List.append_assoc,
      decode_parts hversion rfl rfl hheader hbody, if_neg fun h => hchecksummed h.1]
    rfl

/-- **Where a frame is read**, exactly. -/
theorem decode_eq_iff {b rest : Bytes} {f : Frame} :
    decode b = (.ok (some f), rest) ↔
      f.version = currentVersion ∧ ∃ front written, b = front ++ rest ∧ f.encode = .ok written ∧
        AgreeButChecksum front written ∧ (f.flags.checksummed = true → front = written) := by
  constructor
  · exact encode_of_decode
  · rintro ⟨hversion, front, written, rfl, hwritten, hagree, hsame⟩
    exact decode_of_agree hversion hwritten hagree hsame rest

theorem encodes_iff {f : Frame} :
    (∃ b, f.encode = .ok b) ↔ f.header.length ≤ maxHeader ∧ f.body.length ≤ maxBody := by
  constructor
  · rintro ⟨b, hb⟩
    obtain ⟨hheader, hbody, -⟩ := length_encode hb
    exact ⟨hheader, hbody⟩
  · rintro ⟨hheader, hbody⟩
    exact ⟨_, encode_of_fits hheader hbody⟩

/-- **Encoding and decoding are inverse to each other.** A frame of the current version, with any
flags, goes into bytes just if its two parts are short enough. The bytes have the length that is
announced, and are read back as this frame whatever follows them, which is left as it is. And a
frame is read from a buffer just if the bytes that are taken are those with which it is written, or,
if the frame has no checksum, agree with them in all but the checksum. -/
theorem encode_decode_inverse :
    (∀ f : Frame, f.version = currentVersion →
      ((∃ b, f.encode = .ok b) ↔ f.header.length ≤ maxHeader ∧ f.body.length ≤ maxBody) ∧
      ∀ b, f.encode = .ok b →
        b.length = f.encodedLength ∧ ∀ t, decode (b ++ t) = (.ok (some f), t)) ∧
    ∀ (buffer rest : Bytes) (f : Frame), decode buffer = (.ok (some f), rest) ↔
      f.version = currentVersion ∧ ∃ taken written, buffer = taken ++ rest ∧
        f.encode = .ok written ∧ AgreeButChecksum taken written ∧
        (f.flags.checksummed = true → taken = written) := by
  refine ⟨?_, fun _ _ _ => decode_eq_iff⟩
  intro f hversion
  refine ⟨encodes_iff, ?_⟩
  intro b hb
  exact ⟨(length_encode hb).2.2, decode_encode hversion hb⟩

/-- A frame without a checksum, in a buffer that has something in its place, and a byte behind. -/
def unchecked : Bytes :=
  magic ++ [0, 1, 0, 0, 0, 1, 0, 0, 0, 2, 0xde, 0xad, 0xbe, 0xef, 0x68, 0x62, 0x64, 0x21]

theorem encode_decode_inverse_unchecked :
    (∃ b, (make [0x68] [0x62, 0x64]).encode = .ok b ∧ b.length = 21 ∧
      decode (b ++ [0x21]) = (.ok (some (make [0x68] [0x62, 0x64])), [0x21])) ∧
    decode unchecked = (.ok (some ⟨1, .none, [0x68], [0x62, 0x64]⟩), [0x21]) ∧
    ∃ taken written, unchecked = taken ++ [0x21] ∧
      encode ⟨1, .none, [0x68], [0x62, 0x64]⟩ = .ok written ∧ AgreeButChecksum taken written := by
  obtain ⟨hencodes, hback⟩ := encode_decode_inverse.1 (make [0x68] [0x62, 0x64]) rfl
  obtain ⟨b, hb⟩ := hencodes.mpr ⟨by decide, by decide⟩
  have hbytes : unchecked = (⟨1, .none, 1, 2, 0xdeadbeef⟩ : Fixed).encode
      ++ ([0x68] ++ ([0x62, 0x64] ++ [0x21])) := by
    decide
  have hread : decode unchecked = (.ok (some ⟨1, .none, [0x68], [0x62, 0x64]⟩), [0x21]) := by
    rw [hbytes, decode_parts rfl rfl rfl (by decide) (by decide)]
    rfl
  obtain ⟨-, taken, written, hsplit, hwritten, hagree, -⟩ :=
    (encode_decode_inverse.2 _ _ _).mp hread
  exact ⟨⟨b, hb, (hback b hb).1, (hback b hb).2 [0x21]⟩, hread, taken, written, hsplit, hwritten,
    hagree⟩

end Frame

end WireCall
