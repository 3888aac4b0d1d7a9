import WireCall.Proofs.Frame.Format

/-!
# What decoding takes from a buffer

Decoding leaves a buffer as it is while more bytes are needed, and where the fixed part is refused.
In the other two cases, a frame and a checksum that does not match, it takes the bytes that the
fixed part announces, no more and no less (`Frame.effect`). So one look after another gives the
frames of a stream (`Frame.frames`), and what has been given early is what the stream begins with,
whatever arrives behind it (`Frame.frames_append`).
-/

namespace WireCall

namespace Frame

/-! ## One look at a buffer -/

/-- The length that a fixed part announces for the whole frame. -/
def announced (b : Bytes) : Nat :=
  fixedLength + Bytes.toNatBE (slice b 8 2) + Bytes.toNatBE (slice b 10 4)

/-- **The errors of a fixed part.** -/
inductive Fixed.Refusal : WireError → Prop
  | magic (found : Bytes) : Refusal (.invalidMagic found)
  | version (v : UInt16) : Refusal (.unsupportedVersion v)
  | flags (bits : UInt16) : Refusal (.invalidFlags bits)
  | size (size max : Nat) : Refusal (.frameTooLarge size max)

theorem Flags.refusal_of_ofBits {n : UInt16} {e : WireError} (h : Flags.ofBits n = .error e) :
    e = .invalidFlags n := by
  rw [Flags.ofBits] at h
  split at h
  · cases h
  split at h
  · cases h
  · exact (Except.error.inj h).symm

theorem Fixed.refusal_of_decode {b : Bytes} {e : WireError} (h : Fixed.decode b = .error e) :
    Refusal e := by
  simp only [Fixed.decode] at h
  split at h
  · obtain rfl := Except.error.inj h
    exact .magic _
  split at h
  · obtain rfl := Except.error.inj h
    exact .version _
  split at h
  · rename_i hflags
    obtain rfl := Except.error.inj h
    obtain rfl := Flags.refusal_of_ofBits hflags
    exact .flags _
  split at h
  · obtain rfl := Except.error.inj h
    exact .size _ _
  · cases h

theorem Fixed.total_of_decode {b : Bytes} {p : Fixed} (h : Fixed.decode b = .ok p) :
    p.total = announced b := by
  simp only [Fixed.decode] at h
  split at h
  · cases h
  split at h
  · cases h
  split at h
  · cases h
  split at h
  · cases h
  obtain rfl := Except.ok.inj h
  rfl

/-- **The first `n` bytes are taken from a buffer**, and the rest is left. -/
def Takes (b : Bytes) (n : Nat) (rest : Bytes) : Prop :=
  ∃ front, b = front ++ rest ∧ front.length = n

theorem takes_drop {b : Bytes} {n : Nat} (h : n ≤ b.length) : Takes b n (b.drop n) :=
  ⟨b.take n, (List.take_append_drop n b).symm, List.length_take_of_le h⟩

theorem Takes.length {b rest : Bytes} {n : Nat} (h : Takes b n rest) :
    b.length = n + rest.length := by
  obtain ⟨front, rfl, rfl⟩ := h
  exact List.length_append

/-- **What decoding does**: what it answers on a buffer, and what it leaves of it. -/
inductive Effect (b : Bytes) : Except WireError (Option Frame) × Bytes → Prop
  /-- more bytes are needed -/
  | waits : Effect b (.ok none, b)
  /-- the fixed part is refused -/
  | refused {e : WireError} (hrefusal : Fixed.Refusal e) : Effect b (.error e, b)
  /-- a whole frame has another checksum than it says -/
  | mismatch {rest : Bytes} (expected actual : UInt32) (htakes : Takes b (announced b) rest) :
      Effect b (.error (.crcMismatch expected actual), rest)
  /-- a whole frame is given -/
  | frame {rest : Bytes} (f : Frame) (htakes : Takes b (announced b) rest)
      (hlength : f.encodedLength = announced b) : Effect b (.ok (some f), rest)

theorem effect (b : Bytes) : Effect b (decode b) := by
  cases front b with
  | more hdecode =>
    rw [hdecode]
    exact .waits
  | refused hlong hfixed =>
    rw [decode_of_refused hlong hfixed]
    exact .refused (Fixed.refusal_of_decode hfixed)
  | @whole p hlong hfixed htotal =>
    have htakes := takes_drop htotal
    have hannounced := Fixed.total_of_decode hfixed
    have hparts : fixedLength + p.headerLength + p.bodyLength ≤ b.length := htotal
    rw [decode_of_total hlong hfixed htotal]
    rw [hannounced] at htakes ⊢
    split
    · exact .mismatch _ _ htakes
    · refine .frame _ htakes ?_
      rw [encodedLength, length_slice (by omega), length_slice hparts, ← hannounced]
      rfl

/-- A whole frame is not empty. -/
theorem Takes.length_lt {b rest : Bytes} (h : Takes b (announced b) rest) :
    rest.length < b.length := by
  rw [h.length, announced, fixedLength]
  omega

theorem length_lt_of_frame {b rest : Bytes} {f : Frame} (h : decode b = (.ok (some f), rest)) :
    rest.length < b.length := by
  have heffect := effect b
  rw [h] at heffect
  cases heffect with
  | frame f htakes hlength => exact htakes.length_lt

theorem length_lt_of_mismatch {b rest : Bytes} {expected actual : UInt32}
    (h : decode b = (.error (.crcMismatch expected actual), rest)) : rest.length < b.length := by
  have heffect := effect b
  rw [h] at heffect
  cases heffect with
  | refused hrefusal => cases hrefusal
  | mismatch expected actual htakes => exact htakes.length_lt

/-! ## One look after another -/

/-- The frames of a stream. A frame with another checksum than it says is passed over; behind the
place at which more bytes are needed, or a fixed part is refused, there are none. -/
def frames (b : Bytes) : List Frame :=
  match h : decode b with
  | (.ok (some f), rest) =>
    have := length_lt_of_frame h
    f :: frames rest
  | (.error (.crcMismatch _ _), rest) =>
    have := length_lt_of_mismatch h
    frames rest
  | _ => []
termination_by b.length

variable {b rest : Bytes}

theorem frames_of_frame {f : Frame} (h : decode b = (.ok (some f), rest)) :
    frames b = f :: frames rest := by
  rw [frames]
  split
  · rename_i heq
    rw [h] at heq
    obtain ⟨hf, rfl⟩ := Prod.mk.inj heq
    obtain rfl := Option.some.inj (Except.ok.inj hf)
    rfl
  · rename_i heq
    cases h.symm.trans heq
  · rename_i hne _
    exact absurd h (hne f rest)

theorem frames_of_mismatch {expected actual : UInt32}
    (h : decode b = (.error (.crcMismatch expected actual), rest)) : frames b = frames rest := by
  rw [frames]
  split
  · rename_i heq
    cases h.symm.trans heq
  · rename_i heq
    obtain ⟨-, rfl⟩ := Prod.mk.inj (h.symm.trans heq)
    rfl
  · rename_i hne
    exact absurd h (hne expected actual rest)

/-- The frame that an answer gives. -/
def given? : Except WireError (Option Frame) → Option Frame
  | .ok f? => f?
  | .error _ => none

/-- **The frames of a stream, one look at its front after another**, whatever arrives behind it. -/
theorem frames_append (b t : Bytes) :
    frames (b ++ t) = (given? (decode b).1).toList ++ frames ((decode b).2 ++ t) := by
  have heffect := effect b
  generalize hdecode : decode b = answer at heffect
  have hmore : answer.1 ≠ .ok none → decode (b ++ t) = (answer.1, answer.2 ++ t) := by
    intro hne
    rw [decode_append (by rwa [hdecode]), hdecode]
  cases heffect with
  | waits => rfl
  | refused hrefusal => rfl
  | mismatch expected actual htakes => exact frames_of_mismatch (hmore (by simp))
  | frame f htakes hlength => exact frames_of_frame (hmore (by simp))

end Frame

end WireCall
