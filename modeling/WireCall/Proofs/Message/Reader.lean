import WireCall.Message.Reader
import WireCall.Proofs.Decoder
import WireCall.Proofs.Message

/-!
# What a reader takes from its stream

The bytes that a reader has before it are those in its decoder and those that have arrived behind
them (`Reader.bytes`). In which pieces they have arrived makes no difference: a header is read if
there is a message at their front, and then the message leaves them (`Reader.readHeader_got`); a
reader waits if a part of a frame is there, and keeps it (`Reader.readHeader_waits`); and it fails
only where no further bytes could help (`Reader.readHeader_failed`). Where there is no whole frame
the ending of the stream decides (`Reader.readHeader_of_no_frame`).
-/

namespace WireCall

namespace Source

variable {max : Nat} {s s' : Source}

theorem readFrom_nothing {ending : Option Ending} {pieces : List Bytes} {a : ReadAnswer}
    (ha : ∀ b, a ≠ .bytes b) (h : readFrom max ending pieces = (a, s')) :
    pieces.flatten = [] ∧ s' = ⟨[], ending⟩ ∧ (a = .waits → ending = none) ∧
      ∀ e, a = .ended e → ending = some e := by
  induction pieces with
  | nil =>
    cases ending with
    | none =>
      obtain ⟨rfl, rfl⟩ := Prod.mk.inj h
      exact ⟨rfl, rfl, fun _ => rfl, nofun⟩
    | some e =>
      obtain ⟨rfl, rfl⟩ := Prod.mk.inj h
      exact ⟨rfl, rfl, nofun, fun _ he => congrArg some (ReadAnswer.ended.inj he)⟩
  | cons piece pieces ih =>
    cases piece with
    | nil => simpa using ih h
    | cons c rest =>
      simp only [readFrom] at h
      split at h
      · exact absurd (Prod.mk.inj h).1.symm (ha _)
      · exact absurd (Prod.mk.inj h).1.symm (ha _)

/-- A read that ends the stream has found nothing. -/
theorem read_ended {e : Ending} (h : s.read max = (.ended e, s')) :
    s.unread = [] ∧ s'.unread = [] ∧ s'.ending = s.ending ∧ s.ending = some e := by
  obtain ⟨hnone, rfl, -, hended⟩ := readFrom_nothing (fun b hb => by cases hb) h
  exact ⟨hnone, rfl, rfl, hended e rfl⟩

/-- A read that waits has found nothing. -/
theorem read_waits (h : s.read max = (.waits, s')) :
    s.unread = [] ∧ s'.unread = [] ∧ s'.ending = s.ending ∧ s.ending = none := by
  obtain ⟨hnone, rfl, hwaits, -⟩ := readFrom_nothing (fun b hb => by cases hb) h
  exact ⟨hnone, rfl, rfl, hwaits rfl⟩

end Source

namespace Reader

/-- The bytes that have arrived and belong to no frame yet. -/
def bytes (r : Reader) : Bytes := r.decoder.buffer ++ r.source.unread

/-! ## Frames -/

variable {d d' : Decoder} {s s' : Source}

/-- **What becomes of the bytes** when a reader looks for a frame among them. -/
inductive Takes (d : Decoder) (s : Source) : Reading Frame → Decoder → Source → Prop
  /-- there is a frame -/
  | got {f : Frame} {d' : Decoder} {s' : Source}
      (hframe : Frame.decode (d.buffer ++ s.unread) = (.ok (some f), d'.buffer ++ s'.unread))
      (hending : s'.ending = s.ending) : Takes d s (.got f) d' s'
  /-- there is a frame that is no good -/
  | refused {e : WireError} {d' : Decoder} {s' : Source}
      (hframe : (Frame.decode (d.buffer ++ s.unread)).1 = .error e)
      (hending : s'.ending = s.ending) : Takes d s (.failed e) d' s'
  /-- there is none, and there will not be one -/
  | ended {e : Ending} {d' : Decoder} {s' : Source}
      (hframe : (Frame.decode (d.buffer ++ s.unread)).1 = .ok none) (hsome : s.ending = some e)
      (hending : s'.ending = s.ending) :
      Takes d s (.failed (Negotiation.endError (d.buffer ++ s.unread) e)) d' s'
  /-- there is none yet -/
  | waits {d' : Decoder} {s' : Source}
      (hframe : (Frame.decode (d.buffer ++ s.unread)).1 = .ok none)
      (hbytes : d'.buffer ++ s'.unread = d.buffer ++ s.unread) (hnone : s.ending = none)
      (hending : s'.ending = s.ending) : Takes d s .waits d' s'

theorem takes_takeFrame (d : Decoder) (s : Source) :
    Takes d s (takeFrame d s).1 (takeFrame d s).2.1 (takeFrame d s).2.2 := by
  fun_induction takeFrame d s with
  | case1 d s f d' hnext =>
    exact .got (Frame.decode_append_some (Decoder.decode_of_next hnext) s.unread) rfl
  | case2 d s e d' hnext =>
    exact .refused (Frame.decode_append_error (Decoder.decode_of_next hnext) s.unread) rfl
  | case3 d s d' hnext b s' hread _ ih =>
    have hrest := Frame.rest_of_decode_none (Decoder.decode_of_next hnext)
    obtain ⟨-, -, hsplit, hending⟩ := Source.read_bytes (by decide) hread
    -- the bytes have only moved from the source to the decoder
    have hsame : (d'.extend b).buffer ++ s'.unread = d.buffer ++ s.unread := by
      rw [Decoder.extend, hrest, hsplit, List.append_assoc]
    generalize takeFrame (d'.extend b) s' = out at ih
    obtain ⟨outcome, d₁, s₁⟩ := out
    cases ih with
    | got h₁ h₂ => exact .got (hsame ▸ h₁) (h₂.trans hending)
    | refused h₁ h₂ => exact .refused (hsame ▸ h₁) (h₂.trans hending)
    | ended h₁ h₂ h₃ => exact hsame ▸ .ended (hsame ▸ h₁) (hending ▸ h₂) (h₃.trans hending)
    | waits h₁ h₂ h₃ h₄ =>
      exact .waits (hsame ▸ h₁) (h₂.trans hsame) (hending ▸ h₃) (h₄.trans hending)
  | case4 d s d' hnext e s' hread =>
    have hdecode := Decoder.decode_of_next hnext
    obtain ⟨hunread, -, hending, hsome⟩ := Source.read_ended hread
    have hwhole : d.buffer ++ s.unread = d'.buffer := by
      rw [hunread, List.append_nil, Frame.rest_of_decode_none hdecode]
    rw [← hwhole]
    refine .ended ?_ hsome hending
    rw [hunread, List.append_nil, hdecode]
  | case5 d s d' hnext s' hread =>
    have hdecode := Decoder.decode_of_next hnext
    obtain ⟨hunread, hunread', hending, hnone⟩ := Source.read_waits hread
    refine .waits ?_ ?_ hnone hending
    · rw [hunread, List.append_nil, hdecode]
    · rw [hunread, hunread', Frame.rest_of_decode_none hdecode]

/-! ## Headers -/

variable {r r' : Reader}

/-- **A header is read** where there is a message at the front, which leaves the bytes. -/
theorem readHeader_got {h : Header} (hread : r.readHeader = (.got h, r')) :
    ∃ body, Message.next? r.codec r.bytes = some ((h, body), r'.bytes) ∧ r'.pending = some body ∧
      r'.codec = r.codec ∧ r'.source.ending = r.source.ending := by
  have htakes := takes_takeFrame r.decoder r.source
  simp only [readHeader] at hread
  split at hread
  · simp at hread
  · simp at hread
  · rename_i f d s hframe
    rw [hframe] at htakes
    split at hread
    · simp at hread
    · rename_i hd hheader
      obtain ⟨hh, rfl⟩ := Prod.mk.inj hread
      obtain rfl := Reading.got.inj hh
      cases htakes with
      | got hf hending =>
        exact ⟨f.body, Message.next?_eq_some.mpr ⟨f, hf, hheader, rfl⟩, rfl, rfl, hending⟩

/-- **A reader waits** where there is only a part of a frame, which it keeps. -/
theorem readHeader_waits (hread : r.readHeader = (.waits, r')) :
    Message.next? r.codec r.bytes = none ∧ r'.bytes = r.bytes ∧ r'.codec = r.codec ∧
      r.source.ending = none ∧ r'.source.ending = r.source.ending := by
  have htakes := takes_takeFrame r.decoder r.source
  simp only [readHeader] at hread
  split at hread
  · rename_i d s hframe
    rw [hframe] at htakes
    obtain ⟨-, rfl⟩ := Prod.mk.inj hread
    cases htakes with
    | waits hf hbytes hnone hending =>
      refine ⟨Message.next?_of_no_frame ?_, hbytes, rfl, hnone, hending⟩
      intro f hsome
      cases hf.symm.trans hsome
  · simp at hread
  · split at hread <;> simp at hread

/-- Whether a reader waits for bytes before it can read on. -/
def Waits (r : Reader) : Prop := ∃ r', r.readHeader = (.waits, r')

instance decidableWaits (r : Reader) : Decidable r.Waits :=
  match h : r.readHeader with
  | (.waits, r') => isTrue ⟨r', h⟩
  | (.failed _, _) => isFalse fun ⟨_, h'⟩ => by rw [h] at h'; cases h'
  | (.got _, _) => isFalse fun ⟨_, h'⟩ => by rw [h] at h'; cases h'

theorem Waits.next?_eq_none (h : r.Waits) : Message.next? r.codec r.bytes = none := by
  obtain ⟨r', hwaits⟩ := h
  exact (readHeader_waits hwaits).1

/-- Whether no bytes that may still arrive could complete a message at the front. -/
def Stuck (r : Reader) : Prop :=
  (∀ t, Message.next? r.codec (r.bytes ++ t) = none) ∨
    (Message.next? r.codec r.bytes = none ∧ r.source.ending.isSome)

/-- **A reader fails** only where no bytes could help. -/
theorem readHeader_failed {e : WireError} (hread : r.readHeader = (.failed e, r')) :
    r.Stuck ∧ r'.codec = r.codec ∧ r'.source.ending = r.source.ending := by
  have htakes := takes_takeFrame r.decoder r.source
  simp only [readHeader] at hread
  split at hread
  · simp at hread
  · rename_i e' d s hframe
    rw [hframe] at htakes
    obtain ⟨-, rfl⟩ := Prod.mk.inj hread
    cases htakes with
    | refused hf hending =>
      refine ⟨.inl fun t => Message.next?_of_no_frame ?_, rfl, hending⟩
      intro f hsome
      cases (Frame.decode_append_error (Prod.ext hf rfl) t).symm.trans hsome
    | ended hf hsome hending =>
      refine ⟨.inr ⟨Message.next?_of_no_frame ?_, hsome ▸ rfl⟩, rfl, hending⟩
      intro f hframe'
      cases hf.symm.trans hframe'
  · rename_i f d s hframe
    rw [hframe] at htakes
    split at hread
    · rename_i e' hheader
      obtain ⟨-, rfl⟩ := Prod.mk.inj hread
      cases htakes with
      | got hf hending =>
        refine ⟨.inl fun t => ?_, rfl, hending⟩
        have := Frame.decode_append_some hf t
        rw [Message.next?, bytes, this]
        simp only [hheader]
    · simp at hread

/-- A reader does not fail on what can be completed to a message, as long as its source is open. -/
theorem not_failed_of_front {e : WireError} (hread : r.readHeader = (.failed e, r'))
    (hending : r.source.ending = none)
    (hfront : ∃ t m rest, Message.next? r.codec (r.bytes ++ t) = some (m, rest)) : False := by
  obtain ⟨hstuck, -, -⟩ := readHeader_failed hread
  rcases hstuck with hnever | ⟨-, hended⟩
  · obtain ⟨t, m, rest, hnext⟩ := hfront
    cases (hnever t).symm.trans hnext
  · rw [hending] at hended
    cases hended

theorem Stuck.next?_eq_none (h : r.Stuck) : Message.next? r.codec r.bytes = none := by
  rcases h with hnever | ⟨hnone, -⟩
  · simpa using hnever []
  · exact hnone

/-- **A reader tells the end of the stream** by the bytes that are left, if they hold no frame. -/
theorem readHeader_of_no_frame (hnone : (Frame.decode r.bytes).1 = .ok none) :
    r.readHeader.1 =
      match r.source.ending with
      | some e => .failed (Negotiation.endError r.bytes e)
      | none => .waits := by
  have htakes := takes_takeFrame r.decoder r.source
  rw [readHeader]
  generalize takeFrame r.decoder r.source = out at htakes
  obtain ⟨outcome, d, s⟩ := out
  cases htakes with
  | got hframe => cases (congrArg Prod.fst hframe).symm.trans hnone
  | refused hframe => cases hframe.symm.trans hnone
  | ended _ hsome =>
    rw [hsome]
    rfl
  | waits _ _ hopen =>
    rw [hopen]

/-- A message that is there is read. -/
theorem readHeader_of_next? {h : Header} {body rest : Bytes}
    (hnext : Message.next? r.codec r.bytes = some ((h, body), rest)) :
    ∃ r', r.readHeader = (.got h, r') ∧ r'.bytes = rest ∧ r'.pending = some body ∧
      r'.codec = r.codec := by
  cases hread : r.readHeader with
  | mk outcome r' =>
  cases outcome with
  | waits => cases hnext.symm.trans (readHeader_waits hread).1
  | failed e => cases hnext.symm.trans (readHeader_failed hread).1.next?_eq_none
  | got h' =>
    obtain ⟨body', hnext', hpending, hcodec, -⟩ := readHeader_got hread
    obtain ⟨hm, rfl⟩ := Prod.mk.inj (Option.some.inj (hnext.symm.trans hnext'))
    obtain ⟨rfl, rfl⟩ := Prod.mk.inj hm
    exact ⟨r', rfl, rfl, hpending, hcodec⟩

/-! ## What arrives -/

/-- Bytes that arrive stand behind the others, as long as the stream has not ended. -/
theorem bytes_arrive (r : Reader) (piece : Bytes) :
    (r.arrive piece).bytes = r.bytes ++ if r.source.ending.isSome then [] else piece := by
  simp only [bytes, arrive, Source.arrive, Source.unread]
  split
  · simp
  · simp

@[simp]
theorem ending_arrive (r : Reader) (piece : Bytes) :
    (r.arrive piece).source.ending = r.source.ending := by
  simp only [arrive, Source.arrive]
  split <;> rfl

@[simp]
theorem bytes_finish (r : Reader) (e : Ending) : (r.finish e).bytes = r.bytes := by
  simp only [bytes, finish, Source.finish, Source.unread]
  split <;> rfl

theorem ending_finish (r : Reader) (e : Ending) : (r.finish e).source.ending.isSome := by
  simp only [finish, Source.finish]
  split
  · assumption
  · rfl

end Reader

end WireCall
