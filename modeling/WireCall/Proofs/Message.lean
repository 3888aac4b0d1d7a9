import WireCall.Message
import WireCall.Proofs.Frame
import WireCall.Proofs.Results
import WireCall.Proofs.Shape.Compact
import WireCall.Proofs.Shape.JsonForm

/-!
# Messages in a stream

The header of a message is read back from what was written, in both encodings
(`Header.decode_encode`), and so is the whole message (`Message.next?_encodeRaw`).

`Message.parse` gives the messages at the front of a stream, up to the first place where there is no
complete one or none that is any good. What more bytes add to a stream comes behind the messages
that were in it before (`Message.Splits.append`), so what is read from a stream does not depend on
the pieces in which it arrives.
-/

namespace WireCall

/-- Whether an error is a fault of the stream, and not one of what is written to it or read. -/
def WireError.ofStream : WireError → Bool
  | .io _ | .connectionClosed | .unexpectedEnd | .writerClosed => true
  | _ => false

namespace Codec

/-- What was written in the compact encoding is a success of its own. -/
theorem encode_compact {s : Shape} {v : s.Value} {b : Bytes} (h : encode .compact s v = .ok b) :
    Compact.write s v = .ok b :=
  ok_of_mapError h

theorem encode_json {s : Shape} {v : s.Value} {b : Bytes} (h : encode .json s v = .ok b) :
    JsonForm.encode s v = .ok b :=
  ok_of_mapError h

/-- A value that has no encoding is no fault of a stream. -/
theorem ofStream_of_encode {c : Codec} {s : Shape} {v : s.Value} {e : WireError}
    (h : c.encode s v = .error e) : e.ofStream = false := by
  cases c with
  | compact | json =>
    rw [encode] at h
    obtain ⟨e, -, rfl⟩ := exists_of_mapError h
    rfl

end Codec

/-! ## Headers -/

/-- As many letters of one byte each are as many bytes. -/
theorem Bytes.length_ofText_replicate (n : Nat) :
    (ofText (String.ofList (List.replicate n 'x'))).length = n := by
  have htext : (String.ofList (List.replicate n 'x')).toUTF8 = (List.replicate n 'x').utf8Encode :=
    String.toByteArray_ofList
  rw [ofText, htext, List.utf8Encode, List.data_toByteArray]
  clear htext
  induction n with
  | zero => rfl
  | succ n ih =>
    rw [List.replicate_succ, List.flatMap_cons]
    simp only [List.length_append, ih, String.length_utf8EncodeChar]
    exact Nat.add_comm 1 n

namespace Header

/-- The texts of a header are no longer than the header. -/
theorem length_texts {h : Header} {b : Bytes} (hb : Compact.write shape h.toValue = .ok b) :
    (Bytes.ofText h.method).length ≤ b.length ∧ (Bytes.ofText h.error).length ≤ b.length := by
  simp only [shape, toValue, Compact.write, Compact.writeFields, bind, Except.bind, pure,
    Except.pure, Except.ok.injEq] at hb
  subst hb
  simp only [Compact.writeText, Compact.counted, List.length_append]
  omega

/-- **A header is read back** in both encodings, if it is short enough for a frame. -/
theorem decode_encode {c : Codec} {h : Header} {b : Bytes} (hb : h.encode c = .ok b)
    (hlength : b.length ≤ Frame.maxHeader) : decode c b = .ok h := by
  suffices c.decode shape b = .ok h.toValue by
    rw [decode, this]
    rfl
  cases c with
  | compact =>
    have hwrite := Codec.encode_compact hb
    obtain ⟨hmethod, herror⟩ := length_texts hwrite
    have short : ∀ {n : Nat}, n ≤ b.length → n < Nat.pow 2 64 := by
      intro n hn
      exact Nat.lt_of_le_of_lt (Nat.le_trans hn hlength) (by decide)
    have hback : Compact.ReadsBack shape h.toValue := .record
      ⟨.text (short hmethod), .natural _, .text (short herror), trivial⟩
    rw [Codec.decode, Compact.decode_write hwrite hback]
    rfl
  | json =>
    have hencode := Codec.encode_json hb
    have hlimit : 3 < b.length + 1 := by
      simp only [JsonForm.encode, shape, toValue, JsonForm.write, JsonForm.writeFields, bind,
        Except.bind, pure, Except.pure, Except.ok.injEq] at hencode
      subst hencode
      simp only [Json.objectText, List.map_cons, List.map_nil, Json.joinComma, Json.quote,
        List.flatMap_cons, List.length_cons, List.length_append, List.cons_append, List.tail_cons]
      omega
    have hback : JsonForm.ReadsBack (b.length + 1) Json.maxDepth shape h.toValue := .record
      (by decide) hlimit ⟨.text _, .natural _, .text _, trivial⟩
    rw [Codec.decode, JsonForm.decode_encode hencode hback]
    rfl

end Header

/-! ## The messages of a stream -/

namespace Message

/-- The message at the front of a stream, header and body, and what stands behind it. -/
def next? (c : Codec) (b : Bytes) : Option ((Header × Bytes) × Bytes) :=
  match Frame.decode b with
  | (.ok (some f), rest) =>
    match Header.decode c f.header with
    | .ok h => some ((h, f.body), rest)
    | .error _ => none
  | _ => none

variable {c : Codec} {b rest t : Bytes} {m : Header × Bytes}

theorem next?_eq_some : next? c b = some (m, rest) ↔
    ∃ f, Frame.decode b = (.ok (some f), rest) ∧ Header.decode c f.header = .ok m.1 ∧
      f.body = m.2 := by
  constructor
  · intro h
    simp only [next?] at h
    split at h
    · rename_i f rest' hframe
      split at h
      · rename_i hd hheader
        simp only [Option.some.injEq, Prod.mk.injEq] at h
        obtain ⟨rfl, rfl⟩ := h
        exact ⟨f, hframe, hheader, rfl⟩
      · cases h
    · cases h
  · rintro ⟨f, hframe, hheader, hbody⟩
    simp only [next?, hframe, hheader, hbody]

/-- Without a frame there is no message. -/
theorem next?_of_no_frame (h : ∀ f, (Frame.decode b).1 ≠ .ok (some f)) : next? c b = none := by
  rw [next?]
  split
  · rename_i f rest hframe
    exact absurd (congrArg Prod.fst hframe) (h f)
  · rfl

/-- What stands behind a message is shorter. -/
theorem length_lt_of_next? (h : next? c b = some (m, rest)) : rest.length < b.length := by
  obtain ⟨f, hframe, -, -⟩ := next?_eq_some.mp h
  have := Frame.total_le hframe
  simp only [Frame.fixedLength] at this
  omega

/-- A message that is there stays when more bytes arrive. -/
theorem next?_append (h : next? c b = some (m, rest)) (t : Bytes) :
    next? c (b ++ t) = some (m, rest ++ t) := by
  obtain ⟨f, hframe, hheader, hbody⟩ := next?_eq_some.mp h
  exact next?_eq_some.mpr ⟨f, Frame.decode_append_some hframe t, hheader, hbody⟩

/-- The messages at the front of a stream. -/
def parse (c : Codec) (b : Bytes) : List (Header × Bytes) :=
  match h : next? c b with
  | some (m, rest) =>
    have := length_lt_of_next? h
    m :: parse c rest
  | none => []
termination_by b.length

theorem parse_of_none (h : next? c b = none) : parse c b = [] := by
  rw [parse]
  split
  · rename_i hsome
    rw [h] at hsome
    cases hsome
  · rfl

theorem parse_of_some (h : next? c b = some (m, rest)) : parse c b = m :: parse c rest := by
  rw [parse]
  split
  · rename_i hsome
    rw [h] at hsome
    obtain ⟨rfl, rfl⟩ := Prod.mk.inj (Option.some.inj hsome)
    rfl
  · rename_i hnone
    rw [h] at hnone
    cases hnone

/-- **A stream splits** into messages and what stands behind them. -/
inductive Splits (c : Codec) : Bytes → List (Header × Bytes) → Bytes → Prop
  | nil (b : Bytes) : Splits c b [] b
  | cons {b rest last : Bytes} {m : Header × Bytes} {more : List (Header × Bytes)}
      (hnext : next? c b = some (m, rest)) (hmore : Splits c rest more last) :
      Splits c b (m :: more) last

namespace Splits

variable {ms : List (Header × Bytes)} {last : Bytes}

/-- What arrives behind does not change what was there. -/
theorem append (h : Splits c b ms last) (t : Bytes) : Splits c (b ++ t) ms (last ++ t) := by
  induction h with
  | nil b => exact .nil _
  | cons hnext _ ih => exact .cons (next?_append hnext t) ih

theorem trans {ms' : List (Header × Bytes)} {last' : Bytes} (h : Splits c b ms last)
    (h' : Splits c last ms' last') : Splits c b (ms ++ ms') last' := by
  induction h with
  | nil b => exact h'
  | cons hnext _ ih => exact .cons hnext (ih h')

/-- One more message is taken. -/
theorem snoc (h : Splits c b ms last) (hnext : next? c last = some (m, rest)) :
    Splits c b (ms ++ [m]) rest :=
  h.trans (.cons hnext (.nil rest))

/-- The messages of the whole stream are those before and those behind. -/
theorem parse_eq (h : Splits c b ms last) : parse c b = ms ++ parse c last := by
  induction h with
  | nil b => rfl
  | cons hnext _ ih => rw [parse_of_some hnext, ih, List.cons_append]

end Splits

/-! ## Writing messages -/

/-- Whether a message goes into a frame. -/
def Fits (c : Codec) (m : Header × Bytes) : Prop := ∃ b, encodeRaw c m.1 m.2 = .ok b

instance decidableFits (c : Codec) (m : Header × Bytes) : Decidable (Fits c m) :=
  match h : encodeRaw c m.1 m.2 with
  | .ok b => isTrue ⟨b, h⟩
  | .error e => isFalse fun ⟨b, hb⟩ => by rw [h] at hb; cases hb

/-- The bytes of a message that goes into a frame; one that does not has none. -/
def bytes (c : Codec) (m : Header × Bytes) : Bytes :=
  match encodeRaw c m.1 m.2 with
  | .ok b => b
  | .error _ => []

theorem encodeRaw_of_fits (h : Fits c m) : encodeRaw c m.1 m.2 = .ok (bytes c m) := by
  obtain ⟨b, hb⟩ := h
  rw [bytes, hb]

theorem bytes_of_not_fits (h : ¬ Fits c m) : bytes c m = [] := by
  rw [bytes]
  split
  · rename_i b hb
    exact absurd ⟨b, hb⟩ h
  · rfl

/-- A message that goes into no frame is no fault of the stream. -/
theorem ofStream_of_encodeRaw {h : Header} {body : Bytes} {e : WireError}
    (hraw : encodeRaw c h body = .error e) : e.ofStream = false := by
  rw [encodeRaw] at hraw
  cases hheader : h.encode c with
  | error e' =>
    rw [hheader] at hraw
    obtain rfl := Except.error.inj hraw
    exact Codec.ofStream_of_encode hheader
  | ok header =>
    rw [hheader] at hraw
    replace hraw : (Frame.make header body).encode = .error e := hraw
    rw [Frame.encode] at hraw
    split at hraw
    · obtain rfl := Except.error.inj hraw
      rfl
    split at hraw
    · obtain rfl := Except.error.inj hraw
      rfl
    · cases hraw

/-- The frame of a message. -/
theorem exists_frame {h : Header} {body whole : Bytes} (hraw : encodeRaw c h body = .ok whole) :
    ∃ header, h.encode c = .ok header ∧ (Frame.make header body).encode = .ok whole := by
  rw [encodeRaw] at hraw
  cases hheader : h.encode c with
  | error e =>
    rw [hheader] at hraw
    cases hraw
  | ok header =>
    rw [hheader] at hraw
    exact ⟨header, rfl, hraw⟩

/-- A header with a text that is too long goes into no frame. -/
theorem not_fits_of_long {h : Header} {body : Bytes}
    (hlong : Frame.maxHeader < (Bytes.ofText h.method).length ∨
      Frame.maxHeader < (Bytes.ofText h.error).length) :
    ¬ Fits .compact (h, body) := by
  rintro ⟨b, hb⟩
  obtain ⟨header, hheader, hframe⟩ := exists_frame hb
  have hshort : header.length ≤ Frame.maxHeader := (Frame.length_encode hframe).1
  obtain ⟨hmethod, herror⟩ := Header.length_texts (Codec.encode_compact hheader)
  rcases hlong with hlong | hlong
  · exact Nat.not_le_of_lt hlong (Nat.le_trans hmethod hshort)
  · exact Nat.not_le_of_lt hlong (Nat.le_trans herror hshort)

/-- A message whose texts and body are short goes into a frame, whatever its number is. -/
theorem fits_of_short {h : Header} {body : Bytes}
    (htexts : (Bytes.ofText h.method).length + (Bytes.ofText h.error).length + 30 ≤
      Frame.maxHeader)
    (hbody : body.length ≤ Frame.maxBody) : Fits .compact (h, body) := by
  have hheader : h.encode .compact = .ok (Compact.writeText h.method ++
      (Compact.writeNatural .w64 h.seq.toBitVec ++ (Compact.writeText h.error ++ []))) := rfl
  -- each of the three numbers takes ten bytes at most
  have hnumber : ∀ {n : Nat}, n < UInt64.size → (Varint.encode n).length ≤ 10 := by
    intro n hn
    exact Varint.length_encode_le (Nat.lt_trans hn (by decide)) (by decide)
  have htext : ∀ {t : String}, (Bytes.ofText t).length ≤ Frame.maxHeader →
      (Compact.writeText t).length ≤ (Bytes.ofText t).length + 10 := by
    intro t ht
    have := hnumber (Nat.lt_of_le_of_lt ht (by decide))
    simp only [Compact.writeText, Compact.counted, List.length_append]
    omega
  have hmethod := htext (t := h.method) (by omega)
  have herror := htext (t := h.error) (by omega)
  have hseq : (Compact.writeNatural .w64 h.seq.toBitVec).length ≤ 10 := hnumber h.seq.toNat_lt_size
  simp only [Fits, encodeRaw, hheader]
  refine ⟨_, Frame.encode_of_fits ?_ hbody⟩
  simp only [Frame.make, List.length_append, List.length_nil]
  omega

/-- **A message is read back**, whatever follows it. -/
theorem next?_bytes (h : Fits c m) (t : Bytes) : next? c (bytes c m ++ t) = some (m, t) := by
  obtain ⟨header, hheader, hframe⟩ := exists_frame (encodeRaw_of_fits h)
  have hlength : header.length ≤ Frame.maxHeader := (Frame.length_encode hframe).1
  exact next?_eq_some.mpr
    ⟨_, Frame.decode_encode rfl hframe t, Header.decode_encode hheader hlength, rfl⟩

/-- **A part of a message is waited on.** -/
theorem decode_of_front {whole part : Bytes} (h : encodeRaw c m.1 m.2 = .ok whole)
    (hpart : part <+: whole) (hne : part ≠ whole) : Frame.decode part = (.ok none, part) := by
  obtain ⟨header, -, hframe⟩ := exists_frame h
  obtain ⟨t, rfl⟩ := hpart
  refine Frame.decode_of_front (f := Frame.make header m.2) rfl hframe ?_
  rintro rfl
  exact hne (List.append_nil part).symm

/-- Messages one after another are read back. -/
theorem splits_bytes {ms : List (Header × Bytes)} (h : ∀ m ∈ ms, Fits c m) (t : Bytes) :
    Splits c (ms.flatMap (bytes c) ++ t) ms t := by
  induction ms with
  | nil => exact .nil t
  | cons m ms ih =>
    rw [List.flatMap_cons, List.append_assoc]
    exact .cons (next?_bytes (h m List.mem_cons_self) _)
      (ih fun m' hm => h m' (List.mem_cons_of_mem m hm))

theorem next?_nil (c : Codec) : next? c [] = none := rfl

/-- **Messages one after another are read back**, those that went into a frame. -/
theorem parse_flatMap (c : Codec) (ms : List (Header × Bytes)) :
    parse c (ms.flatMap (bytes c)) = ms.filter fun m => Fits c m := by
  induction ms with
  | nil => exact parse_of_none (next?_nil c)
  | cons m ms ih =>
    rw [List.flatMap_cons]
    by_cases hfits : Fits c m
    · rw [parse_of_some (next?_bytes hfits _), ih, List.filter_cons_of_pos (by simpa using hfits)]
    · rw [bytes_of_not_fits hfits, List.nil_append, ih,
        List.filter_cons_of_neg (by simpa using hfits)]

/-! ## Streams of whole messages -/

/-- Behind the messages taken from the front of a stream of whole messages there are the others. -/
theorem Splits.behind {got ms : List (Header × Bytes)} {last back : Bytes} (h : Splits c b got last)
    (hall : Splits c (b ++ back) ms []) :
    ∃ more, ms = got ++ more ∧ Splits c (last ++ back) more [] := by
  induction h generalizing ms with
  | nil b => exact ⟨ms, rfl, hall⟩
  | cons hnext _ ih =>
    have hnext' := next?_append hnext back
    generalize hwhole : _ ++ back = whole at hall hnext'
    cases hall with
    | nil => cases (next?_nil c).symm.trans hnext'
    | cons hnext'' hmore =>
      obtain ⟨rfl, rfl⟩ := Prod.mk.inj (Option.some.inj (hnext'.symm.trans hnext''))
      obtain ⟨more, rfl, hrest⟩ := ih hmore
      exact ⟨more, rfl, hrest⟩

/-- Where there is no message at the front of a stream of whole messages, there is nothing. -/
theorem Splits.eq_nil {ms : List (Header × Bytes)} (h : Splits c b ms [])
    (hnone : next? c b = none) : ms = [] := by
  cases h with
  | nil => rfl
  | cons hnext => cases hnone.symm.trans hnext

/-- The front of a stream of whole messages can be completed. -/
theorem Splits.exists_next? {ms : List (Header × Bytes)} {back : Bytes}
    (h : Splits c (b ++ back) ms []) : ∃ t m rest, next? c (b ++ t) = some (m, rest) := by
  generalize hwhole : b ++ back = whole at h
  cases h with
  | nil =>
    -- nothing is completed by any message
    obtain ⟨rfl, -⟩ := List.append_eq_nil_iff.mp hwhole
    have hfits : Fits c (Header.blank, []) := by cases c <;> decide +kernel
    exact ⟨bytes c (Header.blank, []) ++ [], _, _, next?_bytes hfits []⟩
  | cons hnext => exact ⟨back, _, _, hwhole ▸ hnext⟩

end Message

end WireCall
