import WireCall.Proofs.Decoder
import WireCall.Proofs.Frame.Consumption
import WireCall.Proofs.Frame.Corruption

/-!
# Going on behind a spoiled frame

A frame of which header or body have been overwritten on the way (`Transfer`) still says in its
fixed part how long it is, and the decoder takes it whole, so that it looks for the next frame at
the right place. Whoever goes on asking whatever the answers are (`Decoder.persist`) gets one answer
for each frame of the stream, in order, and the answers for the frames that have not been touched
are these frames (`Decoder.resynchronises`). In contrast to that, a frame of another version is
never taken: it stands in the way of everything behind it (`Decoder.insist_foreign`).
-/

namespace WireCall

/-- **A frame on its way.** Its fixed part arrives as it was written; any bytes behind it may have
been overwritten. -/
structure Transfer where
  frame : Frame
  written : Bytes
  arrived : Bytes
  encodes : frame.encode = .ok written
  length : arrived.length = written.length
  fixed : arrived.take Frame.fixedLength = written.take Frame.fixedLength

namespace Transfer

/-- The header that arrives. -/
def header (t : Transfer) : Bytes := Frame.slice t.arrived Frame.fixedLength t.frame.header.length

/-- The body that arrives. -/
def body (t : Transfer) : Bytes :=
  Frame.slice t.arrived (Frame.fixedLength + t.frame.header.length) t.frame.body.length

/-- The checksum of what was written. -/
def expected (t : Transfer) : UInt32 := Frame.checksum t.frame.header t.frame.body

/-- The checksum of what arrives. -/
def actual (t : Transfer) : UInt32 := Frame.checksum t.header t.body

/-- The frame has a checksum, and what arrives has another one. -/
def Spoiled (t : Transfer) : Prop :=
  t.frame.flags.checksummed = true ∧ t.actual ≠ t.expected

instance (t : Transfer) : Decidable t.Spoiled := inferInstanceAs (Decidable (_ ∧ _))

/-- What a decoder makes of the frame. -/
def answer (t : Transfer) : Except WireError Frame :=
  if t.Spoiled then .error (.crcMismatch t.expected t.actual)
  else .ok { t.frame with header := t.header, body := t.body }

variable {t : Transfer}

/-- The bytes that arrive are the fixed part of the frame with other parts of the same lengths. -/
theorem arrived_eq (t : Transfer) :
    t.arrived = t.frame.fixed.encode ++ (t.header ++ t.body) ∧
      t.header.length = t.frame.header.length ∧ t.body.length = t.frame.body.length := by
  obtain ⟨hheader, hbody, hlength⟩ := Frame.length_encode t.encodes
  have hwritten := t.encodes
  rw [Frame.encode_of_fits hheader hbody] at hwritten
  have hfixed : t.arrived.take Frame.fixedLength = t.frame.fixed.encode := by
    rw [t.fixed, ← Except.ok.inj hwritten, List.take_left' (Frame.Fixed.length_encode _)]
  rw [← t.length, Frame.encodedLength] at hlength
  refine ⟨?_, Frame.length_slice (by omega), Frame.length_slice (by omega)⟩
  have hparts : t.header ++ t.body = t.arrived.drop Frame.fixedLength := by
    rw [header, body, Frame.slice_append_slice, Frame.slice, List.take_of_length_le]
    rw [List.length_drop]
    omega
  rw [hparts, ← hfixed, List.take_append_drop]

/-- **A frame is taken whole**, whether it is spoiled or not. -/
theorem decode_arrived (hversion : t.frame.version = Frame.currentVersion) (x : Bytes) :
    Frame.decode (t.arrived ++ x) = (t.answer.map some, x) := by
  obtain ⟨harrived, hheader, hbody⟩ := t.arrived_eq
  obtain ⟨hmaxHeader, hmaxBody, -⟩ := Frame.length_encode t.encodes
  rw [harrived, List.append_assoc, List.append_assoc, Frame.decode_parts hversion hheader.symm
    hbody.symm (hheader ▸ hmaxHeader) (hbody ▸ hmaxBody), answer]
  by_cases hchecksummed : t.frame.flags.checksummed = true
  · have hcrc : t.frame.fixed.crc = t.expected := if_pos hchecksummed
    by_cases hsame : t.actual = t.expected
    · rw [if_neg fun h => h.2 (hsame.trans hcrc.symm), if_neg fun h => h.2 hsame]
      rfl
    · rw [hcrc, if_pos ⟨hchecksummed, hsame⟩, if_pos ⟨hchecksummed, hsame⟩]
      rfl
  · rw [if_neg fun h => hchecksummed h.1, if_neg fun h => hchecksummed h.1]
    rfl

/-- A frame of another version is refused, and nothing is taken. -/
theorem decode_arrived_foreign (hversion : t.frame.version ≠ Frame.currentVersion) (x : Bytes) :
    Frame.decode (t.arrived ++ x) =
      (.error (.unsupportedVersion t.frame.version), t.arrived ++ x) := by
  obtain ⟨harrived, -, -⟩ := t.arrived_eq
  rw [harrived, List.append_assoc]
  refine Frame.decode_of_refused ?_ (t.frame.fixed.decode_encode_of_version hversion _)
  simp

theorem spoiled_iff :
    t.Spoiled ↔ ∃ expected actual, t.answer = .error (.crcMismatch expected actual) := by
  constructor
  · intro hspoiled
    exact ⟨_, _, if_pos hspoiled⟩
  · rintro ⟨expected, actual, h⟩
    by_contra hspoiled
    rw [answer, if_neg hspoiled] at h
    cases h

/-- What has not been touched arrives. -/
theorem answer_of_untouched (h : t.arrived = t.written) : t.answer = .ok t.frame := by
  obtain ⟨harrived, hheader, hbody⟩ := t.arrived_eq
  obtain ⟨hmaxHeader, hmaxBody, -⟩ := Frame.length_encode t.encodes
  have hwritten := t.encodes
  rw [Frame.encode_of_fits hmaxHeader hmaxBody, ← h, harrived] at hwritten
  have hparts := List.append_cancel_left (Except.ok.inj hwritten)
  obtain ⟨hsameHeader, hsameBody⟩ := List.append_inj hparts hheader.symm
  rw [answer, if_neg]
  · rw [← hsameHeader, ← hsameBody]
  · rintro ⟨-, hne⟩
    exact hne (by rw [actual, expected, hsameHeader, hsameBody])

/-- A frame that is not touched on its way. -/
def untouched {f : Frame} {b : Bytes} (h : f.encode = .ok b) : Transfer := ⟨f, b, b, h, rfl, rfl⟩

end Transfer

namespace Decoder

/-! ## Asking on -/

/-- What an answer says of the stream: a frame, an error, or nothing yet. -/
def word : Except WireError (Option Frame) → List (Except WireError Frame)
  | .ok none => []
  | .ok (some f) => [.ok f]
  | .error e => [.error e]

theorem word_map_some (r : Except WireError Frame) : word (r.map some) = [r] := by
  cases r with
  | error e => rfl
  | ok f => rfl

/-- Asks for a frame so many times, whatever is answered, and keeps the answers. -/
def insist (d : Decoder) : Nat → List (Except WireError Frame) × Decoder
  | 0 => ([], d)
  | n + 1 => (word d.next.1 ++ (insist d.next.2 n).1, (insist d.next.2 n).2)

/-- Feeds a decoder pieces of a stream and asks for a frame so many times after each of them,
whatever is answered. -/
def persist (d : Decoder) : List (Bytes × Nat) → List (Except WireError Frame) × Decoder
  | [] => ([], d)
  | (piece, n) :: pieces =>
    let early := (d.extend piece).insist n
    (early.1 ++ (persist early.2 pieces).1, (persist early.2 pieces).2)

variable {d : Decoder} {unfed tail : Bytes} {ts : List Transfer}

/-- **What is left of a stream of frames**, in a decoder and in front of it. -/
structure Ahead (d : Decoder) (unfed : Bytes) (ts : List Transfer) (tail : Bytes) : Prop where
  current : ∀ t ∈ ts, t.frame.version = Frame.currentVersion
  waits : (Frame.decode tail).1 = .ok none
  stream : d.buffer ++ unfed = ts.flatMap Transfer.arrived ++ tail

/-- **One question** to a decoder with a stream of frames ahead: more bytes are needed, or the
answer is the one for the first frame. -/
theorem Ahead.next (h : Ahead d unfed ts tail) :
    d.next = (.ok none, d) ∨
      ∃ t left, ts = t :: left ∧ d.next.1 = t.answer.map some ∧ Ahead d.next.2 unfed left tail := by
  by_cases hnone : d.next.1 = .ok none
  · have hnext : d.next = (.ok none, d.next.2) := Prod.ext hnone rfl
    exact .inl (Prod.ext hnone (eq_of_next_none hnext))
  · have hwhole := Frame.decode_append (b := d.buffer) hnone unfed
    rw [h.stream] at hwhole
    cases ts with
    | nil =>
      -- there would be an answer to what is waited on
      exact absurd ((congrArg Prod.fst hwhole).symm.trans h.waits) hnone
    | cons t left =>
      rw [List.flatMap_cons, List.append_assoc,
        Transfer.decode_arrived (h.current t List.mem_cons_self)] at hwhole
      obtain ⟨hanswer, hrest⟩ := Prod.mk.inj hwhole
      refine .inr ⟨t, left, rfl, hanswer.symm, ?_, h.waits, hrest.symm⟩
      intro t' ht'
      exact h.current t' (List.mem_cons_of_mem t ht')

/-- **Any number of questions**: the answers are those for the first frames, and the others are
still ahead. -/
theorem Ahead.insist (h : Ahead d unfed ts tail) (n : Nat) :
    ∃ done left, ts = done ++ left ∧ (d.insist n).1 = done.map Transfer.answer ∧
      Ahead (d.insist n).2 unfed left tail := by
  induction n generalizing d ts with
  | zero => exact ⟨[], ts, rfl, rfl, h⟩
  | succ n ih =>
    rw [Decoder.insist]
    obtain hnone | ⟨t, left, rfl, hanswer, hleft⟩ := h.next
    · rw [hnone]
      exact ih h
    · obtain ⟨done, left', rfl, hdone, hleft'⟩ := ih hleft
      refine ⟨t :: done, left', rfl, ?_, hleft'⟩
      rw [hanswer, hdone, word_map_some, List.map_cons, List.singleton_append]

theorem Ahead.persist {pieces : List (Bytes × Nat)}
    (h : Ahead d (pieces.flatMap Prod.fst) ts tail) :
    ∃ done left, ts = done ++ left ∧ (d.persist pieces).1 = done.map Transfer.answer ∧
      Ahead (d.persist pieces).2 [] left tail := by
  induction pieces generalizing d ts with
  | nil => exact ⟨[], ts, rfl, rfl, h⟩
  | cons p pieces ih =>
    obtain ⟨piece, n⟩ := p
    have hfed : Ahead (d.extend piece) (pieces.flatMap Prod.fst) ts tail := by
      refine ⟨h.current, h.waits, ?_⟩
      rw [extend, List.append_assoc]
      exact h.stream
    obtain ⟨early, later, rfl, hearly, hlater⟩ := hfed.insist n
    obtain ⟨done, left, rfl, hdone, hleft⟩ := ih hlater
    refine ⟨early ++ done, left, (List.append_assoc _ _ _).symm, ?_, hleft⟩
    rw [Decoder.persist, List.map_append, hearly, hdone]

/-- **Enough questions** to a decoder that has been fed all of the stream. -/
theorem Ahead.insist_enough {n : Nat} (h : Ahead d [] ts tail) (hn : ts.length ≤ n) :
    d.insist n = (ts.map Transfer.answer, ⟨tail⟩) := by
  induction n generalizing d ts with
  | zero =>
    obtain rfl := List.eq_nil_of_length_eq_zero (Nat.le_zero.mp hn)
    have hbuffer : d.buffer = tail := by simpa using h.stream
    rw [← hbuffer]
    rfl
  | succ n ih =>
    rw [Decoder.insist]
    cases ts with
    | nil =>
      obtain hnone | ⟨t, left, hcons, -⟩ := h.next
      · rw [hnone]
        exact ih h (Nat.zero_le n)
      · cases hcons
    | cons t left =>
      have hbuffer : d.buffer = t.arrived ++ (left.flatMap Transfer.arrived ++ tail) := by
        simpa using h.stream
      have hnext : d.next = (t.answer.map some, ⟨left.flatMap Transfer.arrived ++ tail⟩) := by
        rw [Decoder.next, hbuffer, Transfer.decode_arrived (h.current t List.mem_cons_self)]
      have hleft : Ahead ⟨left.flatMap Transfer.arrived ++ tail⟩ [] left tail := by
        refine ⟨?_, h.waits, List.append_nil _⟩
        intro t' ht'
        exact h.current t' (List.mem_cons_of_mem t ht')
      rw [hnext, ih hleft (Nat.le_of_succ_le_succ hn), word_map_some]
      rfl

/-- A frame of another version is answered by its version every time, and stays. -/
theorem insist_foreign {t : Transfer} (hversion : t.frame.version ≠ Frame.currentVersion)
    (behind : Bytes) (n : Nat) :
    insist ⟨t.arrived ++ behind⟩ n =
      (List.replicate n (.error (.unsupportedVersion t.frame.version)), ⟨t.arrived ++ behind⟩) := by
  induction n with
  | zero => rfl
  | succ n ih =>
    have hnext : next ⟨t.arrived ++ behind⟩ =
        (.error (.unsupportedVersion t.frame.version), ⟨t.arrived ++ behind⟩) := by
      rw [next, Transfer.decode_arrived_foreign hversion]
    rw [insist, hnext, ih]
    rfl

/-- **What decoding takes, and how a stream goes on behind a spoiled frame.** Decoding takes nothing
from a buffer, or what the fixed part announces. So take any stream of frames of the current
version, header and body of any of them overwritten in any way, and behind them bytes that do not
make up a whole frame. It is fed in any pieces, and after each of them a frame is asked for any
number of times, whatever is answered. Then the answers are those for the first frames in order, the
others are still there, and enough further questions give the answers for these. The answer for a
frame is a mismatch just if it has been overwritten so that its checksum does not match, and the
answer for a frame that has not been touched is this frame. A frame of another version stays where
it is. -/
theorem resynchronises :
    (∀ b, Frame.Effect b (Frame.decode b)) ∧
    (∀ (d : Decoder) (pieces : List (Bytes × Nat)) (ts : List Transfer) (tail : Bytes),
      Ahead d (pieces.flatMap Prod.fst) ts tail →
      ∃ done left, ts = done ++ left ∧ (d.persist pieces).1 = done.map Transfer.answer ∧
        (d.persist pieces).2.buffer = left.flatMap Transfer.arrived ++ tail ∧
        ∀ n, left.length ≤ n →
          (d.persist pieces).2.insist n = (left.map Transfer.answer, ⟨tail⟩)) ∧
    (∀ t : Transfer,
      (t.Spoiled ↔ ∃ expected actual, t.answer = .error (.crcMismatch expected actual)) ∧
      (t.arrived = t.written → t.answer = .ok t.frame)) ∧
    ∀ (t : Transfer) (behind : Bytes) (n : Nat), t.frame.version ≠ Frame.currentVersion →
      insist ⟨t.arrived ++ behind⟩ n =
        (List.replicate n (.error (.unsupportedVersion t.frame.version)),
          ⟨t.arrived ++ behind⟩) := by
  refine ⟨Frame.effect, ?_, ?_, ?_⟩
  · intro d pieces ts tail h
    obtain ⟨done, left, hts, hdone, hleft⟩ := h.persist
    refine ⟨done, left, hts, hdone, ?_, ?_⟩
    · rw [← hleft.stream, List.append_nil]
    · intro n hn
      exact hleft.insist_enough hn
  · intro t
    exact ⟨Transfer.spoiled_iff, Transfer.answer_of_untouched⟩
  · intro t behind n hversion
    exact insist_foreign hversion behind n

/-- A frame whose body is overwritten. -/
def overwritten : Transfer where
  frame := .make [0x68] [0x62]
  written := (Frame.make [0x68] [0x62]).fixed.encode ++ [0x68, 0x62]
  arrived := (Frame.make [0x68] [0x62]).fixed.encode ++ [0x68, 0x63]
  encodes := Frame.encode_of_fits (by decide) (by decide)
  length := by simp
  fixed := by
    rw [List.take_left' (Frame.Fixed.length_encode _),
      List.take_left' (Frame.Fixed.length_encode _)]

/-- A frame with nothing in it. -/
def hollow : Transfer :=
  .untouched (Frame.encode_of_fits (f := .make [] []) (by decide) (by decide))

/-- An overwritten frame between two frames, of which one is empty, with the beginning of another
one behind them, in three pieces. -/
def delivery : List (Bytes × Nat) :=
  [(overwritten.written.take 7, 2), (overwritten.written.drop 7 ++ overwritten.arrived, 1),
    (hollow.arrived ++ [0x4d, 0x52], 0)]

theorem resynchronises_delivery :
    ∃ actual,
      (persist {} delivery).1 ++ ((persist {} delivery).2.insist 3).1 =
        [.ok (.make [0x68] [0x62]),
          .error (.crcMismatch (Frame.checksum [0x68] [0x62]) actual), .ok (.make [] [])] ∧
      ((persist {} delivery).2.insist 3).2.buffer = [0x4d, 0x52] := by
  obtain ⟨-, hgoes, hanswer, -⟩ := resynchronises
  have hstream : delivery.flatMap Prod.fst =
      overwritten.written ++ (overwritten.arrived ++ (hollow.arrived ++ [0x4d, 0x52])) := by
    simp only [delivery, List.flatMap_cons, List.flatMap_nil, List.append_nil, List.append_assoc]
    rw [← List.append_assoc, List.take_append_drop]
  have hahead : Ahead {} (delivery.flatMap Prod.fst)
      [.untouched overwritten.encodes, overwritten, hollow] [0x4d, 0x52] := by
    refine ⟨by decide, rfl, ?_⟩
    rw [hstream]
    simp [Transfer.untouched]
  obtain ⟨done, left, hts, hdone, -, henough⟩ := hgoes _ _ _ _ hahead
  have hleft : left.length ≤ 3 := by
    have hlength := congrArg List.length hts
    simp only [List.length_append, List.length_cons, List.length_nil] at hlength
    omega
  have hfirst := (hanswer (.untouched overwritten.encodes)).2 rfl
  have hlast := (hanswer hollow).2 rfl
  have hspoiled : overwritten.Spoiled := by decide +kernel
  have hmiddle : overwritten.answer =
      .error (.crcMismatch (Frame.checksum [0x68] [0x62]) overwritten.actual) := if_pos hspoiled
  refine ⟨overwritten.actual, ?_, by rw [henough 3 hleft]⟩
  rw [hdone, henough 3 hleft, ← List.map_append, ← hts, List.map_cons, List.map_cons, List.map_cons,
    List.map_nil, hfirst, hmiddle, hlast]
  rfl

/-- A frame of another version, not touched on its way, is not given however often it is asked for.
-/
theorem foreign_never_given :
    Frame.foreign.encode = .ok (Frame.foreign.fixed.encode ++ [0x68, 0x62]) ∧
      ∀ n, insist ⟨Frame.foreign.fixed.encode ++ [0x68, 0x62]⟩ n =
          (List.replicate n (.error (.unsupportedVersion 2)),
            ⟨Frame.foreign.fixed.encode ++ [0x68, 0x62]⟩) ∧
        .ok Frame.foreign ∉ (insist ⟨Frame.foreign.fixed.encode ++ [0x68, 0x62]⟩ n).1 := by
  have hencode : Frame.foreign.encode = .ok (Frame.foreign.fixed.encode ++ [0x68, 0x62]) :=
    Frame.encode_of_fits (by decide) (by decide)
  have hversion : Frame.foreign.version ≠ Frame.currentVersion := by decide
  refine ⟨hencode, ?_⟩
  intro n
  have hinsist := insist_foreign (t := .untouched hencode) hversion [] n
  rw [List.append_nil] at hinsist
  refine ⟨hinsist, ?_⟩
  intro hmem
  replace hmem := congrArg Prod.fst hinsist ▸ hmem
  cases List.eq_of_mem_replicate hmem

end Decoder

end WireCall
