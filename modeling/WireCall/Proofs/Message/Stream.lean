import WireCall.Proofs.Message.Reader
import WireCall.Proofs.Message.Writer

/-!
# Messages through a stream

What a writer has written, one message after another and each with success (`Writer.Writes`), a
reader of the same stream reads, one after another and each with its body (`Reader.Reads`). It makes
no difference how the writes, the bytes that the reader has got beforehand and the pieces in which
the others arrive divide the stream. When all messages have been read the reader tells how the
stream ends: between two messages, inside one, or with a failure (`Reader.reads_written`).
-/

namespace WireCall

namespace Writer

/-- **A writer writes some messages** one after another, each with success. The body of a message
may be given to it as bytes or as a value. -/
inductive Writes : Writer → List (Header × Bytes) → Writer → Prop
  | nil (w : Writer) : Writes w [] w
  | encoded {w w₁ w₂ : Writer} {h : Header} {body : Bytes} {ms : List (Header × Bytes)}
      (hwrite : w.writeEncoded h body = (.ok (), w₁)) (hmore : Writes w₁ ms w₂) :
      Writes w ((h, body) :: ms) w₂
  | value {w w₁ w₂ : Writer} {h : Header} {d : Datum} {body : Bytes} {ms : List (Header × Bytes)}
      (hbody : w.codec.encode d.shape d.value = .ok body)
      (hwrite : w.writeMessage h d = (.ok (), w₁)) (hmore : Writes w₁ ms w₂) :
      Writes w ((h, body) :: ms) w₂

variable {w w' w₁ : Writer} {ms : List (Header × Bytes)}

theorem Writes.taken_cons {h : Header} {body : Bytes}
    (hwrite : w.writeEncoded h body = (.ok (), w₁))
    (hmore : (∀ m ∈ ms, Message.Fits w₁.codec m) ∧
      w'.sink.taken = w₁.sink.taken ++ ms.flatMap (Message.bytes w₁.codec)) :
    (∀ m ∈ (h, body) :: ms, Message.Fits w.codec m) ∧
      w'.sink.taken = w.sink.taken ++ ((h, body) :: ms).flatMap (Message.bytes w.codec) := by
  obtain ⟨hfits, hcodec, htaken⟩ := taken_writeEncoded hwrite
  rw [hcodec, htaken, List.append_assoc] at hmore
  exact ⟨List.forall_mem_cons.mpr ⟨hfits, hmore.1⟩, hmore.2⟩

/-- What was written is in the stream. -/
theorem Writes.taken (h : w.Writes ms w') :
    (∀ m ∈ ms, Message.Fits w.codec m) ∧
      w'.sink.taken = w.sink.taken ++ ms.flatMap (Message.bytes w.codec) := by
  induction h with
  | nil w =>
    refine ⟨?_, (List.append_nil _).symm⟩
    intro m hm
    cases hm
  | encoded hwrite _ ih => exact taken_cons hwrite ih
  | value hbody hwrite _ ih => exact taken_cons ((writeMessage_eq hbody).symm.trans hwrite) ih

/-- Messages that go into frames are all written to a stream that accepts everything. -/
theorem Open.exists_writes (hopen : w.Open) (hfits : ∀ m ∈ ms, Message.Fits w.codec m) :
    ∃ w', w.Writes ms w' := by
  induction ms generalizing w with
  | nil => exact ⟨w, .nil w⟩
  | cons m ms ih =>
    obtain ⟨w₁, hwrite, hopen₁, hcodec, -⟩ :=
      writeEncoded_of_fits hopen (hfits m List.mem_cons_self)
    obtain ⟨w', hmore⟩ := ih hopen₁ fun m' hm => hcodec ▸ hfits m' (List.mem_cons_of_mem m hm)
    exact ⟨w', .encoded hwrite hmore⟩

end Writer

namespace Reader

/-- **A reader reads some messages** one after another, each header with the body behind it. -/
inductive Reads : Reader → List (Header × Bytes) → Reader → Prop
  | nil (r : Reader) : Reads r [] r
  | cons {r r₁ r₂ r₃ : Reader} {h : Header} {body : Bytes} {ms : List (Header × Bytes)}
      (hheader : r.readHeader = (.got h, r₁)) (hbody : r₁.takeBody = (.ok body, r₂))
      (hmore : Reads r₂ ms r₃) : Reads r ((h, body) :: ms) r₃

variable {c : Codec} {b rest : Bytes} {ms : List (Header × Bytes)}

/-- The messages at the front of what a reader has before it are read. -/
theorem reads_of_splits (h : Message.Splits c b ms rest) :
    ∀ r : Reader, r.codec = c → r.bytes = b → ∃ r', r.Reads ms r' ∧ r'.codec = c ∧
      r'.bytes = rest ∧ r'.source.ending = r.source.ending := by
  induction h with
  | nil b =>
    intro r hcodec hbytes
    exact ⟨r, .nil r, hcodec, hbytes, rfl⟩
  | @cons b rest last m more hnext _ ih =>
    intro r hcodec hbytes
    obtain ⟨h, body⟩ := m
    obtain ⟨r₁, hheader, hrest, hpending, hcodec₁⟩ := readHeader_of_next? (r := r) (by
      rw [hcodec, hbytes]
      exact hnext)
    obtain ⟨-, -, -, -, hending₁⟩ := readHeader_got hheader
    have hbody : r₁.takeBody = (.ok body, { r₁ with pending := none }) := by
      rw [takeBody, hpending]
    obtain ⟨r', hmore, hcodec', hlast, hending⟩ :=
      ih { r₁ with pending := none } (hcodec₁.trans hcodec) hrest
    exact ⟨r', .cons hheader hbody hmore, hcodec', hlast, hending.trans hending₁⟩

/-- **What was written is read.** Take the messages that a writer has written with success, whatever
its stream is like, and behind them a part of one more, which may be empty but not all of it. Divide
these bytes between those that a reader of the same codec gets beforehand and any pieces that arrive
behind them. Then the reader reads just these messages, in order and each with its body. After that
it waits while the stream is open; once it has ended, the reader says whether it ended between two
messages or inside one; and if the stream has failed, the reader fails with it. -/
theorem reads_written {w w' : Writer} {ms : List (Header × Bytes)} (hwrites : w.Writes ms w') :
    ∃ stream, w'.sink.taken = w.sink.taken ++ stream ∧
      ∀ (next : Header × Bytes) (whole part : Bytes),
        Message.encodeRaw w.codec next.1 next.2 = .ok whole → part <+: whole → part ≠ whole →
        ∀ (buffered : Bytes) (pieces : List Bytes) (ending : Option Ending),
          buffered ++ pieces.flatten = stream ++ part →
          ∃ r, (make w.codec buffered ⟨pieces, ending⟩).Reads ms r ∧
            (ending = none → r.readHeader.1 = .waits) ∧
            (ending = some .finished → r.readHeader.1 =
              .failed (if part = [] then .connectionClosed else .unexpectedEnd)) ∧
            (∀ e, ending = some (.failed e) → r.readHeader.1 = .failed (.io e)) := by
  obtain ⟨hfits, htaken⟩ := hwrites.taken
  refine ⟨ms.flatMap (Message.bytes w.codec), htaken, ?_⟩
  intro next whole part hwhole hpart hne buffered pieces ending hbytes
  obtain ⟨r, hreads, -, hleft, hending⟩ :=
    reads_of_splits (Message.splits_bytes hfits part) (make w.codec buffered ⟨pieces, ending⟩) rfl
      hbytes
  have hnone : (Frame.decode r.bytes).1 = .ok none := by
    rw [hleft, Message.decode_of_front hwhole hpart hne]
  have hlast := readHeader_of_no_frame hnone
  rw [hending, hleft] at hlast
  refine ⟨r, hreads, ?_, ?_, ?_⟩
  · rintro rfl
    exact hlast
  · rintro rfl
    rw [hlast]
    cases part with
    | nil => rfl
    | cons x rest => rfl
  · rintro e rfl
    exact hlast

/-- Two messages, written to a stream that takes everything, and the first byte of a third one. They
are read in three pieces. -/
theorem reads_written_cut :
    ∃ (w : Writer) (stream : Bytes) (r : Reader),
      Writer.Writes ⟨.json, { behaviour := .faithful }, false⟩
        [(⟨"Foo.Sum", 1, ""⟩, [0x37]), (⟨"Foo.Sum", 2, "why"⟩, [])] w ∧
      w.sink.taken = stream ∧
      (make .json (stream.take 7) ⟨[(stream.drop 7).take 30, (stream.drop 7).drop 30 ++ [0x4d]],
        some .finished⟩).Reads [(⟨"Foo.Sum", 1, ""⟩, [0x37]), (⟨"Foo.Sum", 2, "why"⟩, [])] r ∧
      r.readHeader.1 = .failed .unexpectedEnd := by
  have hopen : Writer.Open ⟨.json, { behaviour := .faithful }, false⟩ :=
    ⟨rfl, SinkBehaviour.accepts_faithful⟩
  have hfits : ∀ m ∈ [(⟨"Foo.Sum", 1, ""⟩, [0x37]), (⟨"Foo.Sum", 2, "why"⟩, [])],
      Message.Fits .json m := by
    decide +kernel
  obtain ⟨w, hwrites⟩ := hopen.exists_writes hfits
  obtain ⟨stream, htaken, hread⟩ := reads_written hwrites
  have hthird : Message.Fits .json (⟨"Foo.Sum", 3, ""⟩, [0x38]) := by
    decide +kernel
  obtain ⟨r, hreads, -, hended, -⟩ := hread _ _ [0x4d] (Message.encodeRaw_of_fits hthird)
    (by decide +kernel) (by decide +kernel) (stream.take 7)
    [(stream.drop 7).take 30, (stream.drop 7).drop 30 ++ [0x4d]] (some .finished) (by
      simp only [List.flatten_cons, List.flatten_nil, List.append_nil]
      rw [← List.append_assoc ((stream.drop 7).take 30), List.take_append_drop, ← List.append_assoc,
        List.take_append_drop])
  exact ⟨w, stream, r, hwrites, htaken, hreads, hended rfl⟩

end Reader

end WireCall
