import WireCall.Frame

/-!
# Frames on the wire

What is written as a frame is read back as that frame, whatever follows it (`Frame.decode_encode`).
There are three ways in which a buffer can be decoded (`Frame.Front`): more bytes are needed, its
fixed part is refused, or all bytes of a frame are there. In the last two, the buffer is decoded in
the same way when more bytes arrive behind it (`Frame.decode_append`), so it does not matter in
which pieces the bytes of a frame arrive, and a part of a frame is always waited on
(`Frame.decode_of_front`).
-/

namespace WireCall

namespace Frame

/-! ## Slices -/

/-- The part between what stands before it and what stands behind it. -/
theorem slice_middle {before part behind : Bytes} {start n : Nat} (hstart : before.length = start)
    (hn : part.length = n) : slice (before ++ (part ++ behind)) start n = part := by
  rw [slice, ← hstart, List.drop_left, ← hn, List.take_left]

/-- A slice that lies inside the buffer does not change when more bytes arrive. -/
theorem slice_append {b t : Bytes} {start n : Nat} (h : start + n ≤ b.length) :
    slice (b ++ t) start n = slice b start n := by
  rw [slice, slice, List.drop_append_of_le_length (by omega), List.take_append_of_le_length]
  rw [List.length_drop]
  omega

/-! ## The fixed part -/

@[simp]
theorem Fixed.length_encode (p : Fixed) : p.encode.length = fixedLength := by
  simp [Fixed.encode, magic, fixedLength]

theorem Flags.ofBits_bits (f : Flags) : Flags.ofBits f.bits = .ok f := by
  cases f with
  | mk checksummed => cases checksummed <;> rfl

/-- A number read back from its bytes in the middle of a buffer. -/
theorem toNatBE_slice {before behind : Bytes} {start k n : Nat} (hstart : before.length = start)
    (hn : n < Nat.pow 256 k) :
    Bytes.toNatBE (slice (before ++ (Bytes.ofNatBE k n ++ behind)) start k) = n := by
  rw [slice_middle hstart (Bytes.length_ofNatBE k n), Bytes.toNatBE_ofNatBE hn]

theorem Fixed.magic_encode (p : Fixed) (t : Bytes) : slice (p.encode ++ t) 0 4 = magic := by
  simp only [Fixed.encode, List.append_assoc]
  exact slice_middle (rfl : ([] : Bytes).length = 0) (rfl : magic.length = 4)

theorem Fixed.version_encode (p : Fixed) (t : Bytes) :
    Bytes.toNatBE (slice (p.encode ++ t) 4 2) = p.version.toNat := by
  simp only [Fixed.encode, List.append_assoc]
  exact toNatBE_slice rfl p.version.toNat_lt

/-- A fixed part of another version is refused, whatever follows it. -/
theorem Fixed.decode_encode_of_version (p : Fixed) (hversion : p.version ≠ currentVersion)
    (t : Bytes) : Fixed.decode (p.encode ++ t) = .error (.unsupportedVersion p.version) := by
  simp only [Fixed.decode, Fixed.magic_encode, Fixed.version_encode, UInt16.ofNat_toNat, ne_eq,
    not_true_eq_false, if_false, hversion, not_false_eq_true, if_true]

/-- A fixed part is read back, whatever follows it. -/
theorem Fixed.decode_encode (p : Fixed) (hversion : p.version = currentVersion)
    (hheader : p.headerLength ≤ maxHeader) (hbody : p.bodyLength ≤ maxBody) (t : Bytes) :
    Fixed.decode (p.encode ++ t) = .ok p := by
  have hflags : Bytes.toNatBE (slice (p.encode ++ t) 6 2) = p.flags.bits.toNat := by
    simp only [Fixed.encode]
    rw [List.append_assoc, List.append_assoc, List.append_assoc, List.append_assoc]
    exact toNatBE_slice (by simp [magic]) p.flags.bits.toNat_lt
  have hheader' : Bytes.toNatBE (slice (p.encode ++ t) 8 2) = p.headerLength := by
    simp only [Fixed.encode]
    rw [List.append_assoc, List.append_assoc, List.append_assoc]
    exact toNatBE_slice (by simp [magic]) (Nat.lt_succ_of_le hheader)
  have hbody' : Bytes.toNatBE (slice (p.encode ++ t) 10 4) = p.bodyLength := by
    simp only [Fixed.encode]
    rw [List.append_assoc, List.append_assoc]
    exact toNatBE_slice (by simp [magic]) (Nat.lt_of_le_of_lt hbody (by decide))
  have hcrc : Bytes.toNatBE (slice (p.encode ++ t) 14 4) = p.crc.toNat := by
    simp only [Fixed.encode]
    rw [List.append_assoc]
    exact toNatBE_slice (by simp [magic]) p.crc.toNat_lt
  simp only [Fixed.decode, Fixed.magic_encode, Fixed.version_encode, hflags, hheader', hbody', hcrc,
    UInt16.ofNat_toNat, UInt32.ofNat_toNat, Flags.ofBits_bits, hversion, ne_eq, not_true_eq_false,
    if_false]
  rw [if_neg (Nat.not_lt.mpr hbody), ← hversion]

/-- Only the first bytes of a buffer make up its fixed part. -/
theorem Fixed.decode_append {b t : Bytes} (h : fixedLength ≤ b.length) :
    Fixed.decode (b ++ t) = Fixed.decode b := by
  simp only [fixedLength] at h
  simp only [Fixed.decode]
  rw [slice_append (by omega), slice_append (by omega), slice_append (by omega),
    slice_append (by omega), slice_append (by omega), slice_append (by omega)]

/-! ## The front of a buffer -/

/-- **What the front of a buffer amounts to.** -/
inductive Front (b : Bytes) : Prop
  /-- more bytes are needed, and none is taken -/
  | more (hdecode : decode b = (.ok none, b))
  /-- the fixed part is refused, and no byte is taken -/
  | refused {e : WireError} (hlong : fixedLength ≤ b.length) (hfixed : Fixed.decode b = .error e)
  /-- all bytes are there that the fixed part announces -/
  | whole {p : Fixed} (hlong : fixedLength ≤ b.length) (hfixed : Fixed.decode b = .ok p)
      (htotal : p.total ≤ b.length)

theorem front (b : Bytes) : Front b := by
  by_cases hlong : fixedLength ≤ b.length
  · cases hfixed : Fixed.decode b with
    | error e => exact .refused hlong hfixed
    | ok p =>
      by_cases htotal : p.total ≤ b.length
      · exact .whole hlong hfixed htotal
      · refine .more ?_
        rw [decode, if_neg (Nat.not_lt.mpr hlong), hfixed]
        exact if_pos (Nat.lt_of_not_le htotal)
  · exact .more (if_pos (Nat.lt_of_not_le hlong))

theorem decode_of_refused {b : Bytes} {e : WireError} (hlong : fixedLength ≤ b.length)
    (hfixed : Fixed.decode b = .error e) : decode b = (.error e, b) := by
  rw [decode, if_neg (Nat.not_lt.mpr hlong), hfixed]

/-- What the fixed part at the front of a buffer makes of the bytes behind it, once they are all
there. -/
theorem decode_of_total {b : Bytes} {p : Fixed} (hlong : fixedLength ≤ b.length)
    (hfixed : Fixed.decode b = .ok p) (htotal : p.total ≤ b.length) :
    decode b =
      (if p.flags.checksummed ∧ checksum (slice b fixedLength p.headerLength)
          (slice b (fixedLength + p.headerLength) p.bodyLength) ≠ p.crc then
        .error (.crcMismatch p.crc (checksum (slice b fixedLength p.headerLength)
          (slice b (fixedLength + p.headerLength) p.bodyLength)))
      else .ok (some ⟨p.version, p.flags, slice b fixedLength p.headerLength,
          slice b (fixedLength + p.headerLength) p.bodyLength⟩), b.drop p.total) := by
  simp only [decode, hfixed, if_neg (Nat.not_lt.mpr hlong), if_neg (Nat.not_lt.mpr htotal)]
  split <;> rfl

/-- A header and a body behind a fixed part that announces them. -/
theorem decode_parts {p : Fixed} {header body : Bytes} (hversion : p.version = currentVersion)
    (hheader : p.headerLength = header.length) (hbody : p.bodyLength = body.length)
    (hmaxHeader : header.length ≤ maxHeader) (hmaxBody : body.length ≤ maxBody) (t : Bytes) :
    decode (p.encode ++ (header ++ (body ++ t))) =
      (if p.flags.checksummed ∧ checksum header body ≠ p.crc then
        .error (.crcMismatch p.crc (checksum header body))
      else .ok (some ⟨p.version, p.flags, header, body⟩), t) := by
  have hlength : (p.encode ++ (header ++ (body ++ t))).length = p.total + t.length := by
    simp only [List.length_append, Fixed.length_encode, Fixed.total, hheader, hbody]
    omega
  have hfixed : Fixed.decode (p.encode ++ (header ++ (body ++ t))) = .ok p :=
    Fixed.decode_encode p hversion (hheader ▸ hmaxHeader) (hbody ▸ hmaxBody) _
  have hheader' : slice (p.encode ++ (header ++ (body ++ t))) fixedLength p.headerLength = header :=
    slice_middle p.length_encode hheader.symm
  have hbody' : slice (p.encode ++ (header ++ (body ++ t))) (fixedLength + p.headerLength)
      p.bodyLength = body := by
    rw [← List.append_assoc]
    exact slice_middle (by rw [List.length_append, p.length_encode, hheader]) hbody.symm
  have hrest : (p.encode ++ (header ++ (body ++ t))).drop p.total = t := by
    rw [← List.append_assoc, ← List.append_assoc]
    refine List.drop_left' ?_
    simp only [List.length_append, p.length_encode, Fixed.total, hheader, hbody]
  have hlong : fixedLength ≤ p.total := Nat.le_trans (Nat.le_add_right _ _) (Nat.le_add_right _ _)
  rw [decode_of_total (by omega) hfixed (by omega), hheader', hbody', hrest]

/-! ## Whole frames -/

theorem length_encode {f : Frame} {b : Bytes} (h : f.encode = .ok b) :
    f.header.length ≤ maxHeader ∧ f.body.length ≤ maxBody ∧ b.length = f.encodedLength := by
  simp only [encode] at h
  split at h
  · cases h
  split at h
  · cases h
  obtain rfl := Except.ok.inj h
  refine ⟨by omega, by omega, ?_⟩
  simp only [List.length_append, Fixed.length_encode, encodedLength]
  omega

/-- The fixed part of the bytes of a frame. -/
def fixed (f : Frame) : Fixed :=
  ⟨f.version, f.flags, f.header.length, f.body.length,
    if f.flags.checksummed then checksum f.header f.body else 0⟩

theorem encode_of_fits {f : Frame} (hheader : f.header.length ≤ maxHeader)
    (hbody : f.body.length ≤ maxBody) :
    f.encode = .ok (f.fixed.encode ++ (f.header ++ f.body)) := by
  rw [encode, if_neg (Nat.not_lt.mpr hbody), if_neg (Nat.not_lt.mpr hheader)]
  rfl

/-- **A frame is read back**, whatever follows it. -/
theorem decode_encode {f : Frame} {b : Bytes} (hversion : f.version = currentVersion)
    (h : f.encode = .ok b) (t : Bytes) : decode (b ++ t) = (.ok (some f), t) := by
  obtain ⟨hheader, hbody, -⟩ := length_encode h
  rw [encode_of_fits hheader hbody] at h
  obtain rfl := Except.ok.inj h
  rw [List.append_assoc, List.append_assoc, decode_parts hversion rfl rfl hheader hbody, if_neg]
  · rfl
  · rintro ⟨hchecksummed, hne⟩
    exact hne (if_pos hchecksummed).symm

theorem total_le {b rest : Bytes} {f : Frame} (h : decode b = (.ok (some f), rest)) :
    rest.length + fixedLength ≤ b.length := by
  cases front b with
  | more hdecode => cases hdecode.symm.trans h
  | refused hlong hfixed => cases (decode_of_refused hlong hfixed).symm.trans h
  | @whole p hlong hfixed htotal =>
    rw [decode_of_total hlong hfixed htotal] at h
    obtain ⟨-, rfl⟩ := Prod.mk.inj h
    simp only [Fixed.total] at htotal
    rw [List.length_drop, Fixed.total]
    omega

/-! ## More bytes -/

/-- A buffer that holds all bytes of its first frame is decoded in the same way when more bytes
stand behind it. -/
theorem decode_append_of_total {b : Bytes} {p : Fixed} (hlong : fixedLength ≤ b.length)
    (hfixed : Fixed.decode b = .ok p) (htotal : p.total ≤ b.length) (t : Bytes) :
    decode (b ++ t) = ((decode b).1, (decode b).2 ++ t) := by
  have hle : b.length ≤ (b ++ t).length := by
    rw [List.length_append]
    exact Nat.le_add_right _ _
  have hparts : fixedLength + p.headerLength + p.bodyLength ≤ b.length := htotal
  rw [decode_of_total (Nat.le_trans hlong hle) (by rw [Fixed.decode_append hlong, hfixed])
    (Nat.le_trans htotal hle), decode_of_total hlong hfixed htotal, slice_append (by omega),
    slice_append (by omega), List.drop_append_of_le_length htotal]

/-- **A buffer that is decoded at all is decoded in the same way when more bytes stand behind it.**
-/
theorem decode_append {b : Bytes} (h : (decode b).1 ≠ .ok none) (t : Bytes) :
    decode (b ++ t) = ((decode b).1, (decode b).2 ++ t) := by
  cases front b with
  | more hdecode => exact absurd (congrArg Prod.fst hdecode) h
  | refused hlong hfixed =>
    have hlong' : fixedLength ≤ (b ++ t).length := by
      rw [List.length_append]
      omega
    rw [decode_of_refused hlong hfixed,
      decode_of_refused hlong' ((Fixed.decode_append hlong).trans hfixed)]
  | whole hlong hfixed htotal => exact decode_append_of_total hlong hfixed htotal t

/-- A whole frame is decoded in the same way when more bytes stand behind it. -/
theorem decode_append_some {b rest : Bytes} {f : Frame} (h : decode b = (.ok (some f), rest))
    (t : Bytes) : decode (b ++ t) = (.ok (some f), rest ++ t) := by
  rw [decode_append (by simp [h]), h]

/-- A frame that is refused is so when more bytes stand behind it. -/
theorem decode_append_error {b rest : Bytes} {e : WireError} (h : decode b = (.error e, rest))
    (t : Bytes) : (decode (b ++ t)).1 = .error e := by
  rw [decode_append (by simp [h]), h]

/-- Where more bytes are needed, none is taken. -/
theorem rest_of_decode_none {b rest : Bytes} (h : decode b = (.ok none, rest)) : rest = b := by
  cases front b with
  | more hdecode => exact (Prod.mk.inj (h.symm.trans hdecode)).2
  | refused hlong hfixed => cases (decode_of_refused hlong hfixed).symm.trans h
  | whole hlong hfixed htotal =>
    rw [decode_of_total hlong hfixed htotal] at h
    split at h
    · cases h
    · cases h

/-- **A part of a frame is waited on.** -/
theorem decode_of_front {f : Frame} {b t : Bytes} (hversion : f.version = currentVersion)
    (h : f.encode = .ok (b ++ t)) (ht : t ≠ []) : decode b = (.ok none, b) := by
  by_cases hnone : (decode b).1 = .ok none
  · exact Prod.ext hnone (rest_of_decode_none (Prod.ext hnone rfl))
  · -- it would be decoded as the whole, and leave what is missing
    have hwhole : decode (b ++ t) = (.ok (some f), []) := by
      simpa using decode_encode hversion h []
    rw [decode_append hnone] at hwhole
    exact absurd (List.append_eq_nil_iff.mp (Prod.mk.inj hwhole).2).2 ht

end Frame

end WireCall
