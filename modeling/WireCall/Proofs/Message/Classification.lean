import WireCall.Proofs.Frame.Format
import WireCall.Proofs.Message.Containment

/-!
# Which errors close a writer

An open writer reports an error where a message has no frame, and where its stream fails. The stream
is fatally hurt in the second case only, and only then the writer is closed. The errors themselves
say the same (`WireError.isStreamFatal`), with one exception: a message that is *oversized*
(`Outgoing.Oversized`) is refused with an error that counts as fatal, because a reader that meets it
can go no further, while the writer has not touched its stream and stays open
(`Writer.closed_iff_fatal`).
-/

namespace WireCall

/-- A value that has no encoding is not fatal to a stream. -/
theorem Codec.not_fatal_of_encode {c : Codec} {s : Shape} {v : s.Value} {e : WireError}
    (h : c.encode s v = .error e) : e.isStreamFatal = false := by
  cases c with
  | compact | json =>
    rw [encode] at h
    obtain ⟨e, -, rfl⟩ := exists_of_mapError h
    rfl

/-- All that can be wrong with a frame is its size. -/
theorem Frame.fatal_of_encode {f : Frame} {e : WireError} (h : f.encode = .error e) :
    e.isStreamFatal = true := by
  rw [encode] at h
  split at h
  · obtain rfl := Except.error.inj h
    rfl
  split at h
  · obtain rfl := Except.error.inj h
    rfl
  · cases h

namespace Outgoing

/-- The header of a message. -/
def header : Outgoing → Header
  | .encoded h _ => h
  | .value h _ => h

/-- The encoded body of a message, or why there is none. -/
def body (c : Codec) : Outgoing → Except WireError Bytes
  | .encoded _ body => .ok body
  | .value _ d => c.encode d.shape d.value

/-- **A message that is oversized**: its parts can be encoded, but are too long for a frame. -/
def Oversized (c : Codec) (m : Outgoing) : Prop :=
  ∃ header body, m.header.encode c = .ok header ∧ m.body c = .ok body ∧
    (Frame.maxHeader < header.length ∨ Frame.maxBody < body.length)

variable {c : Codec} {m : Outgoing} {e : WireError}

theorem frame_eq (c : Codec) (m : Outgoing) :
    m.frame c = (do
      let body ← m.body c
      let header ← m.header.encode c
      (Frame.make header body).encode) := by
  cases m <;> rfl

/-- The parts of a message that has no frame, although they can be encoded. -/
theorem oversized_of_parts {header body : Bytes} (hheader : m.header.encode c = .ok header)
    (hbody : m.body c = .ok body) (h : (Frame.make header body).encode = .error e) :
    m.Oversized c := by
  refine ⟨header, body, hheader, hbody, ?_⟩
  have hnone : ¬ ∃ b, (Frame.make header body).encode = .ok b := by
    rintro ⟨b, hb⟩
    cases h.symm.trans hb
  rw [Frame.encodes_iff] at hnone
  have hheader : (Frame.make header body).header = header := rfl
  have hbody : (Frame.make header body).body = body := rfl
  rw [hheader, hbody] at hnone
  omega

/-- A message that has a frame is not oversized. -/
theorem not_oversized_of_frame {b : Bytes} (h : m.frame c = .ok b) : ¬ m.Oversized c := by
  rintro ⟨header, body, hheader, hbody, hlong⟩
  rw [frame_eq, hbody, hheader] at h
  obtain ⟨hshort, hshort', -⟩ := Frame.length_encode (f := Frame.make header body) h
  have hheader : header.length ≤ Frame.maxHeader := hshort
  have hbody : body.length ≤ Frame.maxBody := hshort'
  omega

/-- **Of the messages that have no frame** the oversized ones are those whose error counts as
fatal. -/
theorem fatal_iff_oversized (h : m.frame c = .error e) :
    e.isStreamFatal = true ↔ m.Oversized c := by
  rw [frame_eq] at h
  rcases bind_eq_error.mp h with hbody | ⟨body, hbody, h⟩
  · -- the body cannot be encoded
    have hfatal : e.isStreamFatal = false := by
      cases m with
      | encoded h' body => cases hbody
      | value h' d => exact Codec.not_fatal_of_encode hbody
    refine iff_of_false (by simp [hfatal]) ?_
    rintro ⟨header, body, -, hbody', -⟩
    cases hbody.symm.trans hbody'
  rcases bind_eq_error.mp h with hheader | ⟨header, hheader, h⟩
  · refine iff_of_false (by simp [Codec.not_fatal_of_encode hheader]) ?_
    rintro ⟨header, body, hheader', -, -⟩
    cases hheader.symm.trans hheader'
  · exact iff_of_true (Frame.fatal_of_encode h) (oversized_of_parts hheader hbody h)

/-- A message with a name that is too long has no frame, and that counts as fatal. -/
theorem frame_of_long {h : Header} {body : Bytes}
    (hlong : Frame.maxHeader < (Bytes.ofText h.method).length) :
    ∃ e, frame .compact (.encoded h body) = .error e ∧ e.isStreamFatal = true := by
  cases hframe : frame .compact (.encoded h body) with
  | ok b => exact absurd ⟨b, hframe⟩ (Message.not_fits_of_long (.inl hlong))
  | error e =>
    obtain ⟨header, hheader⟩ : ∃ header, h.encode .compact = .ok header := ⟨_, rfl⟩
    have hlength := (Header.length_texts (Codec.encode_compact hheader)).1
    have hoversized : Oversized .compact (.encoded h body) :=
      ⟨header, body, hheader, rfl, .inl (Nat.lt_of_lt_of_le hlong hlength)⟩
    exact ⟨e, rfl, (fatal_iff_oversized hframe).mpr hoversized⟩

end Outgoing

namespace Writer

variable {w w' : Writer} {m : Outgoing} {e : WireError}

/-- **An error closes a writer just if it counts as fatal and the message is not oversized.** Give
an open writer a message, its body encoded or as a value, on a stream that answers in any way, and
let it report an error:

- the writer is closed behind it just if the stream has failed;
- that agrees with the error's being fatal to the stream just if the message is not oversized;
- for one that is, the error counts as fatal, but the writer and its stream are as they were. -/
theorem closed_iff_fatal (hopen : w.closed = false)
    (h : w.obey (.write m) = (.error e, w')) :
    (w'.closed = true ↔ ∃ fault, e = .io fault) ∧
      ((w'.closed = true ↔ e.isStreamFatal = true) ↔ ¬ m.Oversized w.codec) ∧
      (m.Oversized w.codec → w' = w ∧ e.isStreamFatal = true) := by
  have hobeys := obeys_of_open hopen (.write m)
  rw [h] at hobeys
  cases hobeys with
  | misfit hframe =>
    have hfatal := Outgoing.fatal_iff_oversized hframe
    have hnofault : ¬ ∃ fault, e = .io fault := by
      rintro ⟨fault, rfl⟩
      cases Outgoing.ofStream_of_frame hframe
    simp only [hopen, Bool.false_eq_true, false_iff, hfatal, true_and]
    exact ⟨hnofault, fun hoversized => hoversized⟩
  | @broken m frame part fault s hframe =>
    have hfits := Outgoing.not_oversized_of_frame hframe
    exact ⟨iff_of_true rfl ⟨fault, rfl⟩, iff_of_true (iff_of_true rfl rfl) hfits,
      fun hoversized => absurd hoversized hfits⟩

/-- A message of which a stream that fails behind forty bytes takes only a part. -/
def longerThanForty : Outgoing := .encoded ⟨"Foo.Sum", 1, ""⟩ (List.replicate 30 7)

theorem closed_iff_fatal_broken_off :
    let w : Writer := { codec := .compact, sink := { behaviour := fortyBytes } }
    ∃ e w', w.closed = false ∧ w.obey (.write longerThanForty) = (.error e, w') ∧
      ¬ longerThanForty.Oversized .compact ∧ w'.closed = true ∧ e.isStreamFatal = true := by
  intro w
  have hfault : (w.obey (.write longerThanForty)).1.toOption = none := by decide +kernel
  have hclosed : (w.obey (.write longerThanForty)).2.closed = true := by decide +kernel
  have hframe : ((longerThanForty.frame .compact).toOption).isSome = true := by decide +kernel
  obtain ⟨b, hb⟩ := Option.isSome_iff_exists.mp hframe
  have hfits := Outgoing.not_oversized_of_frame (ok_of_toOption hb)
  cases hobey : w.obey (.write longerThanForty) with
  | mk r w' =>
  rw [hobey] at hfault hclosed
  cases r with
  | ok u => cases hfault
  | error e =>
    obtain ⟨-, hagree, -⟩ := closed_iff_fatal (w := w) rfl hobey
    exact ⟨e, w', rfl, rfl, hfits, hclosed, (hagree.mpr hfits).mp hclosed⟩

/-- A name of 65536 letters. -/
def longName : String := String.ofList (List.replicate 65536 'x')

/-- A writer is given a message whose name is too long for a frame. It reports an error that counts
as fatal to the stream, and is as it was. -/
theorem oversized_left_open :
    ∃ (w : Writer) (e : WireError), w.closed = false ∧
      w.obey (.write (.encoded ⟨longName, 1, ""⟩ [])) = (.error e, w) ∧
      e.isStreamFatal = true := by
  let w : Writer := { codec := .compact, sink := { behaviour := .faithful } }
  have hlong : Frame.maxHeader < (Bytes.ofText longName).length :=
    Nat.lt_of_lt_of_eq (Nat.lt_succ_self 65535) (Bytes.length_ofText_replicate 65536).symm
  obtain ⟨e, hframe, hfatal⟩ : ∃ e, Outgoing.frame w.codec (.encoded ⟨longName, 1, ""⟩ []) =
      .error e ∧ e.isStreamFatal = true := Outgoing.frame_of_long hlong
  exact ⟨w, e, rfl, obey_misfit hframe, hfatal⟩

end Writer

end WireCall
