import WireCall.Proofs.Checksum
import WireCall.Proofs.Frame

/-!
# Altered frames are refused

The checksum of a frame is that of its header and its body as one string of bytes
(`Frame.checksum_eq`). So it does not matter for it where the one ends and the other begins, and an
alteration of at most four bytes in a row behind the fixed part is always noticed, also where it
lies in both (`Frame.corruption_detected`). It is noticed in frames of the current version only: the
version is looked at first, and a frame of another one is refused for its version.
-/

namespace WireCall

/-- **An alteration** of some bytes, of at most `n` bytes in a row, none of which stands in front of
the place `start`. -/
structure Altered (start n : Nat) (b b' : Bytes) : Prop where
  length : b'.length = b.length
  ne : b' ≠ b
  within : ∃ i, start ≤ i ∧ ∀ j, b'[j]? ≠ b[j]? → i ≤ j ∧ j < i + n

namespace Altered

variable {start n : Nat} {b b' front old new back : Bytes}

/-- What stands in front of the altered bytes and behind them has stayed. -/
theorem split (h : Altered start n b b') (hstart : start ≤ b.length) :
    ∃ front old new back, b = front ++ (old ++ back) ∧ b' = front ++ (new ++ back) ∧
      start ≤ front.length ∧ new.length = old.length ∧ old.length ≤ n ∧ new ≠ old := by
  obtain ⟨i, hi, hwithin⟩ := h.within
  have hlength := h.length
  have hsame : ∀ j, ¬ (i ≤ j ∧ j < i + n) → b'[j]? = b[j]? := by
    intro j hj
    exact Decidable.not_not.mp (mt (hwithin j) hj)
  have hfront : b'.take i = b.take i := by
    apply List.ext_getElem?
    intro j
    rw [List.getElem?_take, List.getElem?_take]
    split
    · exact hsame j (by omega)
    · rfl
  have hback : b'.drop (i + n) = b.drop (i + n) := by
    apply List.ext_getElem?
    intro j
    rw [List.getElem?_drop, List.getElem?_drop]
    exact hsame _ (by omega)
  have hparts : ∀ a : Bytes, a = a.take i ++ ((a.drop i).take n ++ a.drop (i + n)) := by
    intro a
    rw [← List.drop_drop, List.take_append_drop, List.take_append_drop]
  refine ⟨b.take i, (b.drop i).take n, (b'.drop i).take n, b.drop (i + n), hparts b, ?_, ?_, ?_,
    List.length_take_le _ _, ?_⟩
  · rw [← hfront, ← hback]
    exact hparts b'
  · rw [List.length_take]
    omega
  · rw [List.length_take, List.length_take, List.length_drop, List.length_drop, hlength]
  · intro hold
    apply h.ne
    rw [hparts b', hfront, hback, hold, ← hparts b]

/-- Other bytes, as many, in the place of some. -/
theorem of_split (hfront : start ≤ front.length) (hlength : new.length = old.length)
    (hn : old.length ≤ n) (hne : new ≠ old) :
    Altered start n (front ++ (old ++ back)) (front ++ (new ++ back)) where
  length := by simp only [List.length_append, hlength]
  ne h := hne (List.append_inj (List.append_cancel_left h) hlength).1
  within := by
    refine ⟨front.length, hfront, ?_⟩
    intro j hj
    constructor
    · apply Nat.le_of_not_lt
      intro hlt
      exact hj (by rw [List.getElem?_append_left hlt, List.getElem?_append_left hlt])
    · apply Nat.lt_of_not_le
      intro hge
      apply hj
      rw [List.getElem?_append_right (by omega), List.getElem?_append_right (by omega),
        List.getElem?_append_right (by omega), List.getElem?_append_right (by omega), hlength]

end Altered

namespace Frame

/-- The checksum of a frame is that of header and body as one. -/
theorem checksum_eq (header body : Bytes) :
    checksum header body = Checksum.crc32c (header ++ body) :=
  Checksum.continued_crc32c header body

/-- Altered bytes of a frame are its fixed part and other bytes, as many, with another checksum. -/
theorem exists_parts_of_altered {f : Frame} {b b' : Bytes} (hencode : f.encode = .ok b)
    (haltered : Altered fixedLength 4 b b') :
    ∃ header body, b' = f.fixed.encode ++ (header ++ body) ∧ header.length = f.header.length ∧
      body.length = f.body.length ∧ checksum header body ≠ checksum f.header f.body := by
  obtain ⟨hheader, hbody, hlength⟩ := length_encode hencode
  rw [encode_of_fits hheader hbody] at hencode
  obtain rfl := Except.ok.inj hencode
  obtain ⟨front, old, new, back, hsplit, rfl, hfront, hsame, hfour, hne⟩ :=
    haltered.split (by rw [hlength, encodedLength]; omega)
  -- what is in front of the alteration begins with the fixed part
  obtain ⟨before, rfl⟩ : f.fixed.encode <+: front :=
    List.prefix_of_prefix_length_le ⟨_, hsplit⟩ ⟨_, rfl⟩ (by simpa using hfront)
  rw [List.append_assoc] at hsplit
  have hdata : f.header ++ f.body = before ++ (old ++ back) := List.append_cancel_left hsplit
  have hcount : (before ++ (new ++ back)).length = f.header.length + f.body.length := by
    rw [← List.length_append, hdata]
    simp only [List.length_append, hsame]
  refine ⟨(before ++ (new ++ back)).take f.header.length,
    (before ++ (new ++ back)).drop f.header.length, ?_, ?_, ?_, ?_⟩
  · rw [List.take_append_drop, List.append_assoc]
  · rw [List.length_take]
    omega
  · rw [List.length_drop]
    omega
  · rw [checksum_eq, checksum_eq, List.take_append_drop, hdata]
    exact Checksum.crc32c_ne_of_burst hsame hfour hne

/-- Other bytes, as many, in the place of some behind a fixed part. -/
theorem altered_behind (p : Fixed) (n : Nat) (before old new back : Bytes)
    (hlength : new.length = old.length) (hn : old.length ≤ n) (hne : new ≠ old) :
    Altered fixedLength n (p.encode ++ (before ++ (old ++ back)))
      (p.encode ++ (before ++ (new ++ back))) := by
  rw [← List.append_assoc p.encode, ← List.append_assoc p.encode]
  refine .of_split ?_ hlength hn hne
  simp

/-- **Altered frames are refused.** Take a frame with a checksum, and its bytes with at most four in
a row altered behind the fixed part, whatever follows them. If the frame is of the current version,
it is refused because its checksum and the one that the bytes now have are different, and the bytes
are taken. A frame of another version is refused for its version, and nothing is taken. -/
theorem corruption_detected {f : Frame} {b b' : Bytes} (hchecksummed : f.flags.checksummed = true)
    (hencode : f.encode = .ok b) (haltered : Altered fixedLength 4 b b') (t : Bytes) :
    (f.version = currentVersion → ∃ actual, actual ≠ checksum f.header f.body ∧
      decode (b' ++ t) = (.error (.crcMismatch (checksum f.header f.body) actual), t)) ∧
    (f.version ≠ currentVersion →
      decode (b' ++ t) = (.error (.unsupportedVersion f.version), b' ++ t)) := by
  obtain ⟨hmaxHeader, hmaxBody, -⟩ := length_encode hencode
  obtain ⟨header, body, rfl, hheader, hbody, hne⟩ := exists_parts_of_altered hencode haltered
  have hcrc : f.fixed.crc = checksum f.header f.body := if_pos hchecksummed
  constructor
  · intro hversion
    refine ⟨checksum header body, hne, ?_⟩
    rw [List.append_assoc, List.append_assoc, decode_parts hversion hheader.symm hbody.symm
      (hheader ▸ hmaxHeader) (hbody ▸ hmaxBody), hcrc, if_pos ⟨hchecksummed, hne⟩]
  · intro hversion
    rw [List.append_assoc]
    refine decode_of_refused ?_ (f.fixed.decode_encode_of_version hversion _)
    simp

/-- An alteration of the end of the header and the beginning of the body. -/
theorem corruption_detected_across :
    ∃ b b' actual, (make [0x68, 0x69] [0x62, 0x64, 0x65]).encode = .ok b ∧
      Altered fixedLength 4 b b' ∧
      decode b' =
        (.error (.crcMismatch (checksum [0x68, 0x69] [0x62, 0x64, 0x65]) actual), []) := by
  have hencode :=
    encode_of_fits (f := make [0x68, 0x69] [0x62, 0x64, 0x65]) (by decide) (by decide)
  have haltered := altered_behind (make [0x68, 0x69] [0x62, 0x64, 0x65]).fixed 4 [0x68]
    [0x69, 0x62, 0x64] [0x69, 0xff, 0x65] [0x65] rfl (by decide) (by decide)
  obtain ⟨actual, -, hdecode⟩ := (corruption_detected rfl hencode haltered []).1 rfl
  rw [List.append_nil] at hdecode
  exact ⟨_, _, actual, hencode, haltered, hdecode⟩

/-- A frame of another version, with a checksum. -/
def foreign : Frame := ⟨2, ⟨true⟩, [0x68], [0x62]⟩

/-- A frame of another version, of which the last byte has been altered, is not refused for its
checksum. -/
theorem foreign_corruption_undetected :
    foreign.flags.checksummed = true ∧
      foreign.encode = .ok (foreign.fixed.encode ++ [0x68, 0x62]) ∧
      Altered fixedLength 4 (foreign.fixed.encode ++ [0x68, 0x62])
        (foreign.fixed.encode ++ [0x68, 0x63]) ∧
      decode (foreign.fixed.encode ++ [0x68, 0x63]) =
        (.error (.unsupportedVersion 2), foreign.fixed.encode ++ [0x68, 0x63]) ∧
      ∀ expected actual rest, decode (foreign.fixed.encode ++ [0x68, 0x63]) ≠
        (.error (.crcMismatch expected actual), rest) := by
  have haltered := altered_behind foreign.fixed 4 [0x68] [0x62] [0x63] [] rfl (by decide)
    (by decide)
  have hlong : fixedLength ≤ (foreign.fixed.encode ++ [0x68, 0x63]).length := by
    simp
  have hdecode := decode_of_refused hlong
    (foreign.fixed.decode_encode_of_version (by decide) [0x68, 0x63])
  refine ⟨rfl, encode_of_fits (by decide) (by decide), haltered, hdecode, ?_⟩
  intro expected actual rest h
  cases hdecode.symm.trans h

end Frame

end WireCall
