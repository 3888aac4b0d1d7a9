import WireCall.Options
import WireCall.Proofs.Shape.JsonForm

/-!
# The document of the options

Any options can be written, with any magic number, as one line (`Options.toLine_eq`): its document
has no line end of its own (`Options.lineEnd_notMem_text`) and is short enough to be waited for
(`Options.length_text`). Read back, it gives the options, unless their magic number is another one
than the protocol's, which is then named (`Options.ofDocument_text`). Conversely, a document that is
accepted holds the magic number and the identifier of a codec (`Options.exists_fields`), and one
that is refused cannot be read or lacks one of the two (`Options.ofDocument_eq_error`).
-/

namespace WireCall

namespace Options

variable {o : Options}

/-- The text of the document that asks for the options. -/
def text (o : Options) : Bytes :=
  Json.objectText [("MagicNumber", Numeral.text (.natural o.magic.toNat)),
    ("CodecType", Json.quote o.codec.identifier)]

/-- Any options can be written. -/
theorem toLine_eq (o : Options) : o.toLine = .ok (o.text ++ [0x0a]) := rfl

/-- The parts of the text: all but the digits is fixed by the codec. -/
theorem text_eq (o : Options) :
    ∃ front back, o.text = front ++ Numeral.text (.natural o.magic.toNat) ++ back ∧
      0x0a ∉ front ∧ 0x0a ∉ back ∧ front.length + back.length < 100 := by
  refine ⟨0x7b :: (Json.quote "MagicNumber" ++ [0x3a]),
    0x2c :: (Json.quote "CodecType" ++ 0x3a :: Json.quote o.codec.identifier ++ [0x7d]), ?_, ?_, ?_,
    ?_⟩
  · simp [text, Json.objectText, Json.joinComma]
  · decide +kernel
  · cases o.codec <;> decide +kernel
  · cases o.codec <;> decide +kernel

/-- **The document has no line end** of its own. -/
theorem lineEnd_notMem_text (o : Options) : 0x0a ∉ o.text := by
  obtain ⟨front, back, htext, hfront, hback, -⟩ := text_eq o
  rw [htext, List.mem_append, List.mem_append]
  rintro ((h | h) | h)
  · exact hfront h
  · exact absurd ((Json.text_natural o.magic.toNat).1 _ h) (by decide)
  · exact hback h

/-- **The document is short enough** to be waited for, with its line end. -/
theorem length_text (o : Options) : o.text.length < maxDocument := by
  obtain ⟨front, back, htext, -, -, hlength⟩ := text_eq o
  have hdigits : (Numeral.text (.natural o.magic.toNat)).length ≤ 20 := by
    rw [Numeral.text, List.length_map, Double.digitText]
    refine (Nat.length_toDigits_le_iff (by decide) (by decide)).mpr ?_
    exact Nat.lt_of_lt_of_le o.magic.toNat_lt (by decide)
  rw [htext, List.length_append, List.length_append, maxDocument]
  omega

/-- The options as a value of their shape. -/
def toValue (o : Options) : shape.Value := (o.magic.toBitVec, o.codec.identifier, ())

/-- The document is read back. -/
theorem decode_text (o : Options) : Codec.json.decode shape o.text = .ok o.toValue := by
  have hencode : JsonForm.encode shape o.toValue = .ok o.text := rfl
  have hlimit : 2 < o.text.length + 1 := by
    simp only [text, Json.objectText, List.map_cons, List.map_nil, Json.joinComma, Json.quote,
      List.flatMap_cons, List.length_cons, List.length_append, List.cons_append, List.tail_cons]
    omega
  have hback : JsonForm.ReadsBack (o.text.length + 1) Json.maxDepth shape o.toValue := .record
    (by decide) hlimit ⟨.natural _, .text _, trivial⟩
  rw [Codec.decode, JsonForm.decode_encode hencode hback]
  rfl

/-- The identifier of a codec names it. -/
theorem ofIdentifier_identifier (c : Codec) : Codec.ofIdentifier c.identifier = .ok c := by
  cases c <;> rfl

/-- An identifier that is understood is that of one of the codecs. -/
theorem mem_of_ofIdentifier {name : String} {c : Codec} (h : Codec.ofIdentifier name = .ok c) :
    c ∈ Codec.all ∧ name = c.identifier := by
  rw [Codec.ofIdentifier] at h
  split at h
  · rename_i c' hfind
    obtain rfl := Except.ok.inj h
    have hname := List.find?_some hfind
    exact ⟨List.mem_of_find?_eq_some hfind, (of_decide_eq_true hname).symm⟩
  · cases h

theorem ofDocument_of_unread {b : Bytes} {e : WireError}
    (h : Codec.json.decode shape b = .error e) : ofDocument b = .error e := by
  rw [ofDocument, h]
  rfl

/-- What is made of the fields of a document. -/
theorem ofDocument_of_decode {b : Bytes} {v : shape.Value}
    (h : Codec.json.decode shape b = .ok v) :
    ofDocument b =
      if (fields v).1 = magicNumber then (Codec.ofIdentifier (fields v).2).map (⟨(fields v).1, ·⟩)
      else .error (.invalidMagicNumber (fields v).1.toNat magicNumber.toNat) := by
  rw [ofDocument, h]
  simp only [bind, Except.bind]
  split
  · cases hcodec : Codec.ofIdentifier (fields v).2 with
    | ok c => rfl
    | error e => rfl
  · rfl

/-- **The document is understood**, if it bears the magic number of the protocol, and refused for
another one. -/
theorem ofDocument_text (o : Options) :
    ofDocument o.text =
      if o.magic = magicNumber then .ok o
      else .error (.invalidMagicNumber o.magic.toNat magicNumber.toNat) := by
  have hfields : fields o.toValue = (o.magic, o.codec.identifier) := rfl
  rw [ofDocument_of_decode o.decode_text, hfields, ofIdentifier_identifier]
  rfl

/-- **A document that is accepted** holds the magic number and the identifier of a codec. -/
theorem exists_fields {b : Bytes} (h : ofDocument b = .ok o) :
    ∃ v, Codec.json.decode shape b = .ok v ∧ fields v = (magicNumber, o.codec.identifier) ∧
      o.magic = magicNumber ∧ o.codec ∈ Codec.all := by
  cases hdecode : Codec.json.decode shape b with
  | error e => cases (ofDocument_of_unread hdecode).symm.trans h
  | ok v =>
    rw [ofDocument_of_decode hdecode] at h
    split at h
    · rename_i hmagic
      cases hcodec : Codec.ofIdentifier (fields v).2 with
      | error e =>
        rw [hcodec] at h
        cases h
      | ok c =>
        rw [hcodec] at h
        obtain rfl := Except.ok.inj h
        obtain ⟨hmem, hname⟩ := mem_of_ofIdentifier hcodec
        exact ⟨v, rfl, Prod.ext hmagic hname, hmagic, hmem⟩
    · cases h

/-- **A document that is refused** cannot be read, or does not hold them. -/
theorem ofDocument_eq_error {b : Bytes} {e : WireError} (h : ofDocument b = .error e) :
    Codec.json.decode shape b = .error e ∨
      (∃ n, e = .invalidMagicNumber n magicNumber.toNat) ∨ ∃ name, e = .unsupportedCodec name := by
  cases hdecode : Codec.json.decode shape b with
  | error e' =>
    obtain rfl := Except.error.inj ((ofDocument_of_unread hdecode).symm.trans h)
    exact .inl rfl
  | ok v =>
    rw [ofDocument_of_decode hdecode] at h
    split at h
    · rw [Codec.ofIdentifier] at h
      split at h
      · cases h
      · exact .inr (.inr ⟨_, (Except.error.inj h).symm⟩)
    · exact .inr (.inl ⟨_, (Except.error.inj h).symm⟩)

end Options

end WireCall
