import WireCall.Decoder
import WireCall.Proofs.Frame

/-!
# Frames do not depend on the pieces

A decoder is fed a stream in pieces, and asked for frames so many times after each of them, but not
again once one is refused (`Decoder.feed`). In the end it is asked until it gives none
(`Decoder.drain`). What comes of it, the frames, the error and the bytes that are left, is the same
as when the whole stream is fed at once (`Decoder.feed_eq_drain`). This rests on one fact: what has
been asked for early is what the stream begins with, whatever arrives behind it
(`Decoder.drain_extend`).
-/

namespace WireCall

/-- **What comes out of a decoder.** -/
structure Harvest where
  /-- the frames, the first one first -/
  frames : List Frame
  /-- why no further frame is taken, if one has been refused -/
  failure : Option WireError
  /-- the bytes that belong to none of the frames -/
  left : Bytes

namespace Harvest

/-- Nothing but the bytes of a decoder. -/
def nothing (d : Decoder) : Harvest := ⟨[], none, d.buffer⟩

/-- A frame that is refused. -/
def refusal (e : WireError) (d : Decoder) : Harvest := ⟨[], some e, d.buffer⟩

/-- What comes behind some frames. -/
def behind (frames : List Frame) (h : Harvest) : Harvest :=
  { h with frames := frames ++ h.frames }

/-- A harvest that goes on with what is left, unless a frame has been refused: then the bytes that
have not been fed are left as well. -/
def resume (h : Harvest) (unfed : Bytes) (go : Decoder → Harvest) : Harvest :=
  match h.failure with
  | none => (go ⟨h.left⟩).behind h.frames
  | some _ => { h with left := h.left ++ unfed }

theorem behind_behind (fs gs : List Frame) (h : Harvest) :
    (h.behind gs).behind fs = h.behind (fs ++ gs) := by
  simp only [behind, List.append_assoc]

theorem resume_behind (fs : List Frame) (h : Harvest) (unfed : Bytes) (go : Decoder → Harvest) :
    (h.behind fs).resume unfed go = (h.resume unfed go).behind fs := by
  obtain ⟨gs, failure, left⟩ := h
  cases failure with
  | none => exact (behind_behind fs gs (go ⟨left⟩)).symm
  | some e => rfl

end Harvest

namespace Decoder

/-! ## Asking for frames -/

variable {d d' : Decoder} {r : Except WireError (Option Frame)}

theorem decode_of_next (h : d.next = (r, d')) : Frame.decode d.buffer = (r, d'.buffer) := by
  obtain ⟨hr, hd⟩ := Prod.mk.inj h
  exact Prod.ext hr (congrArg Decoder.buffer hd)

theorem length_lt_of_next {f : Frame} (h : d.next = (.ok (some f), d')) :
    d'.buffer.length < d.buffer.length := by
  have := Frame.total_le (decode_of_next h)
  simp only [Frame.fixedLength] at this
  omega

/-- Asks for frames until none is given. -/
def drain (d : Decoder) : Harvest :=
  match h : d.next with
  | (.ok (some f), d') =>
    have := length_lt_of_next h
    (drain d').behind [f]
  | (.ok none, d') => .nothing d'
  | (.error e, d') => .refusal e d'
termination_by d.buffer.length

/-- Asks for a frame so many times, but not again once one is refused. -/
def ask (d : Decoder) : Nat → Harvest
  | 0 => .nothing d
  | n + 1 =>
    match d.next with
    | (.ok (some f), d') => (ask d' n).behind [f]
    | (.ok none, d') => ask d' n
    | (.error e, d') => .refusal e d'

/-- Feeds a decoder the pieces of a stream, asks for a frame so many times after each of them, and
in the end until none is given. Once a frame is refused nothing more is fed. -/
def feed (d : Decoder) : List (Bytes × Nat) → Harvest
  | [] => d.drain
  | (piece, n) :: pieces =>
    ((d.extend piece).ask n).resume (pieces.flatMap Prod.fst) fun d' => feed d' pieces

theorem drain_of_some {f : Frame} (h : d.next = (.ok (some f), d')) :
    d.drain = d'.drain.behind [f] := by
  rw [drain]
  split
  · rename_i heq
    rw [h] at heq
    obtain ⟨hf, rfl⟩ := Prod.mk.inj heq
    obtain rfl := Option.some.inj (Except.ok.inj hf)
    rfl
  · rename_i heq
    cases h.symm.trans heq
  · rename_i heq
    cases h.symm.trans heq

theorem drain_of_error {e : WireError} (h : d.next = (.error e, d')) : d.drain = .refusal e d' := by
  rw [drain]
  split
  · rename_i heq
    cases h.symm.trans heq
  · rename_i heq
    cases h.symm.trans heq
  · rename_i heq
    rw [h] at heq
    obtain ⟨he, rfl⟩ := Prod.mk.inj heq
    obtain rfl := Except.error.inj he
    rfl

/-! ## Feeding pieces -/

/-- Where no frame is given, the decoder stays as it is. -/
theorem eq_of_next_none (h : d.next = (.ok none, d')) : d' = d :=
  congrArg mk (Frame.rest_of_decode_none (decode_of_next h))

/-- What a decoder has answered it answers also when more bytes have arrived, unless they were
needed. -/
theorem next_extend (h : d.next = (r, d')) (hr : r ≠ .ok none) (t : Bytes) :
    (d.extend t).next = (r, d'.extend t) := by
  obtain ⟨rfl, rfl⟩ := Prod.mk.inj h
  rw [next, extend, Frame.decode_append hr]
  rfl

/-- **What has been asked for early is what the stream begins with.** -/
theorem drain_extend (d : Decoder) (n : Nat) (t : Bytes) :
    (d.extend t).drain = (d.ask n).resume t fun d' => (d'.extend t).drain := by
  induction n generalizing d with
  | zero => rfl
  | succ n ih =>
    rw [ask]
    split
    · rename_i f d' hnext
      rw [drain_of_some (next_extend hnext (by simp) t), ih d', Harvest.resume_behind]
    · rename_i d' hnext
      rw [← ih d', eq_of_next_none hnext]
    · rename_i e d' hnext
      rw [drain_of_error (next_extend hnext (by simp) t)]
      rfl

/-- **Frames do not depend on the pieces.** Whatever a decoder has before it and whatever it is fed,
in pieces of any size and with any number of questions after each of them: the frames, the error if
one is refused, and the bytes that are left are those of the whole stream fed at once. For what is
decoded from the front of a buffer, if more bytes are not needed, is decoded whatever follows, and
what follows is left behind what was left. -/
theorem feed_eq_drain :
    (∀ (d : Decoder) (pieces : List (Bytes × Nat)),
      d.feed pieces = (d.extend (pieces.flatMap Prod.fst)).drain) ∧
    ∀ (b x : Bytes) (r : Except WireError (Option Frame)) (rest : Bytes),
      Frame.decode b = (r, rest) → r ≠ .ok none → Frame.decode (b ++ x) = (r, rest ++ x) := by
  constructor
  · intro d pieces
    induction pieces generalizing d with
    | nil =>
      rw [feed, List.flatMap_nil, extend, List.append_nil]
    | cons p pieces ih =>
      obtain ⟨piece, n⟩ := p
      have hmore : d.extend (((piece, n) :: pieces).flatMap Prod.fst) =
          (d.extend piece).extend (pieces.flatMap Prod.fst) := by
        rw [extend, extend, extend, List.flatMap_cons, List.append_assoc]
      rw [feed, hmore, drain_extend _ n]
      simp only [ih]
  · intro b x r rest h hr
    obtain ⟨rfl, rfl⟩ := Prod.mk.inj h
    exact Frame.decode_append hr x

/-- A whole frame whose checksum is wrong. -/
def corrupt : Bytes := (⟨1, ⟨true⟩, 1, 1, 0⟩ : Frame.Fixed).encode ++ [0x68, 0x62]

theorem feed_eq_drain_corrupt :
    ∃ actual, Frame.decode corrupt = (.error (.crcMismatch 0 actual), []) ∧
      Frame.decode (corrupt ++ [1, 2, 3]) = (.error (.crcMismatch 0 actual), [1, 2, 3]) ∧
      feed {} [(corrupt.take 15, 2), (corrupt.drop 15 ++ [1], 3), ([2, 3], 1)] =
        ⟨[], some (.crcMismatch 0 actual), [1, 2, 3]⟩ := by
  have hcorrupt : Frame.decode corrupt =
      (.error (.crcMismatch 0 (Frame.checksum [0x68] [0x62])), []) := by
    have hne : Frame.checksum [0x68] [0x62] ≠ 0 := by decide +kernel
    rw [show corrupt = (⟨1, ⟨true⟩, 1, 1, 0⟩ : Frame.Fixed).encode ++ ([0x68] ++ ([0x62] ++ []))
      from rfl, Frame.decode_parts rfl rfl rfl (by decide) (by decide), if_pos ⟨rfl, hne⟩]
  have hmore := feed_eq_drain.2 corrupt [1, 2, 3] _ _ hcorrupt (by simp)
  refine ⟨_, hcorrupt, hmore, ?_⟩
  have hstream : [(corrupt.take 15, 2), (corrupt.drop 15 ++ [1], 3), ([2, 3], 1)].flatMap Prod.fst =
      corrupt ++ [1, 2, 3] := by
    decide
  rw [feed_eq_drain.1, hstream]
  exact drain_of_error (d := ⟨corrupt ++ [1, 2, 3]⟩) (by rw [next, hmore])

end Decoder

end WireCall
