import WireCall.Message.Writer
import WireCall.Proofs.Message

/-!
# What a writer puts into its stream

A stream *accepts* everything (`SinkBehaviour.Accepts`) if each write takes some of the bytes that
it is offered and no flush fails; how many bytes a write takes is open. On such a stream each
message that goes into a frame is written completely, and one that does not leaves the stream alone
(`Writer.writeEncoded_of_fits`, `Writer.writeEncoded_of_not_fits`). On any stream, a message that
was written with success is in the stream as a whole (`Writer.taken_writeEncoded`).

On a stream that may fail at any time, a message that is given to a writer has one of four fates
(`Writer.fate_writeEncoded`): it goes into no frame, or comes too late, and then nothing happens; it
is written; or the stream fails, and a part of it is written to a stream that is shut down.
-/

namespace WireCall

/-- The front of what is written one piece behind the other: whole pieces, and perhaps a part of one
more. -/
theorem front_flatMap {α β : Type} {f : α → List β} {l : List α} {seen : List β}
    (h : seen <+: l.flatMap f) :
    (∃ done rest, l = done ++ rest ∧ seen = done.flatMap f) ∨
      ∃ done a rest part, l = done ++ a :: rest ∧ part <+: f a ∧ part ≠ f a ∧
        seen = done.flatMap f ++ part := by
  induction l generalizing seen with
  | nil => exact .inl ⟨[], [], rfl, List.prefix_nil.mp h⟩
  | cons a l ih =>
    rw [List.flatMap_cons] at h
    rcases List.prefix_or_prefix_of_prefix h (List.prefix_append _ _) with hpart | ⟨back, rfl⟩
    · by_cases hwhole : seen = f a
      · refine .inl ⟨[a], l, rfl, ?_⟩
        rw [hwhole, List.flatMap_singleton]
      · exact .inr ⟨[], a, l, seen, rfl, hpart, hwhole, rfl⟩
    · -- the first piece is whole, and what is behind it is a front of the others
      rcases ih ((List.prefix_append_right_inj _).mp h) with
        ⟨done, rest, rfl, rfl⟩ | ⟨done, b, rest, part, rfl, hpart, hless, rfl⟩
      · exact .inl ⟨a :: done, rest, rfl, List.flatMap_cons.symm⟩
      · refine .inr ⟨a :: done, b, rest, part, rfl, hpart, hless, ?_⟩
        rw [List.flatMap_cons, List.append_assoc]

/-- **A stream that accepts everything**, in pieces of any size. -/
structure SinkBehaviour.Accepts (b : SinkBehaviour) : Prop where
  write : ∀ calls taken offered, 0 < offered → ∃ n, b.write calls taken offered = .takes (n + 1)
  flush : ∀ calls, b.flush calls = none

theorem SinkBehaviour.accepts_faithful : SinkBehaviour.faithful.Accepts where
  write := by
    intro _ _ offered h
    obtain ⟨n, rfl⟩ := Nat.exists_eq_succ_of_ne_zero (Nat.ne_of_gt h)
    exact ⟨n, rfl⟩
  flush := fun _ => rfl

namespace Sink

variable {s : Sink}

/-- All bytes are written, one piece after another. -/
theorem writeLoop_accepts {left : Nat} {b : Bytes} (h : s.behaviour.Accepts)
    (hleft : left = b.length) :
    ∃ s', s.writeLoop left b = (.ok (), s') ∧ s'.taken = s.taken ++ b ∧
      s'.behaviour = s.behaviour ∧ s'.shutdowns = s.shutdowns := by
  induction left using Nat.strongRecOn generalizing b s with
  | ind left ih =>
    rw [writeLoop]
    split
    · rename_i hzero
      obtain rfl : b = [] := List.eq_nil_of_length_eq_zero (hleft.symm.trans hzero)
      exact ⟨s, rfl, by simp, rfl, rfl⟩
    · rename_i hpos
      obtain ⟨n, hn⟩ := h.write s.writes s.count left (Nat.pos_of_ne_zero hpos)
      simp only [hn]
      have hle : min (n + 1) left ≤ left := Nat.min_le_right _ _
      obtain ⟨s', hs', htaken, hbehaviour, hshutdowns⟩ := ih (left - min (n + 1) left) (by omega)
        (s := s.take (b.take (min (n + 1) left)) (min (n + 1) left))
        (b := b.drop (min (n + 1) left)) h (by simp [hleft])
      refine ⟨s', hs', ?_, hbehaviour, hshutdowns⟩
      rw [htaken, taken_take, List.append_assoc, List.take_append_drop]

theorem send_accepts (h : s.behaviour.Accepts) (b : Bytes) :
    ∃ s', s.send b = (.ok (), s') ∧ s'.taken = s.taken ++ b ∧ s'.behaviour = s.behaviour ∧
      s'.shutdowns = s.shutdowns := by
  obtain ⟨s', hs', htaken, hbehaviour, hshutdowns⟩ := writeLoop_accepts h (rfl : b.length = _)
  refine ⟨{ s' with flushes := s'.flushes + 1 }, ?_, htaken, hbehaviour, hshutdowns⟩
  simp only [send, writeAll, hs', flush, hbehaviour, h.flush]

@[simp]
theorem taken_flush (s : Sink) : s.flush.2.taken = s.taken := by
  rw [flush]
  split <;> rfl

/-- What is sent with success is taken as a whole. -/
theorem taken_send {b : Bytes} {s' : Sink} (h : s.send b = (.ok (), s')) :
    s'.taken = s.taken ++ b := by
  obtain ⟨n, -, htaken, hall⟩ := taken_writeAll b s
  rw [send] at h
  split at h
  · rename_i s₁ hwrite
    rw [hwrite] at htaken hall
    calc s'.taken = s₁.flush.2.taken := congrArg (fun x => x.2.taken) h.symm
      _ = s.taken ++ b.take n := (taken_flush s₁).trans htaken
      _ = s.taken ++ b := by rw [hall rfl, List.take_length]
  · cases h

@[simp]
theorem shutdowns_flush (s : Sink) : s.flush.2.shutdowns = s.shutdowns := by
  rw [flush]
  split <;> rfl

@[simp]
theorem shutdowns_writeLoop (left : Nat) (b : Bytes) (s : Sink) :
    (s.writeLoop left b).2.shutdowns = s.shutdowns := by
  induction left using Nat.strongRecOn generalizing b s with
  | ind left ih =>
    rw [writeLoop]
    split
    · rfl
    · split
      · rfl
      · rfl
      · exact ih _ (by omega) _ _

/-- What is sent is taken from its front on, on any stream. -/
theorem taken_send_front (b : Bytes) (s : Sink) :
    ∃ n, (s.send b).2.taken = s.taken ++ b.take n ∧ (s.send b).2.shutdowns = s.shutdowns := by
  obtain ⟨n, -, htaken, -⟩ := taken_writeAll b s
  have hshutdowns : (s.writeAll b).2.shutdowns = s.shutdowns := shutdowns_writeLoop _ _ _
  refine ⟨n, ?_⟩
  rw [send]
  split
  · rename_i s₁ hwrite
    rw [hwrite] at htaken hshutdowns
    rw [taken_flush, shutdowns_flush]
    exact ⟨htaken, hshutdowns⟩
  · rename_i e s₁ hwrite
    rw [hwrite] at htaken hshutdowns
    exact ⟨htaken, hshutdowns⟩

end Sink

namespace Writer

/-- Whether a writer is open, on a stream that accepts everything. -/
structure Open (w : Writer) : Prop where
  closed : w.closed = false
  accepts : w.sink.behaviour.Accepts

variable {w : Writer}

/-- What is written with success is in the stream. -/
theorem taken_writeFrame {w' : Writer} {frame : Bytes} (h : w.writeFrame frame = (.ok (), w')) :
    w'.codec = w.codec ∧ w'.sink.taken = w.sink.taken ++ frame := by
  rw [writeFrame] at h
  split at h
  · cases h
  split at h
  · rename_i s hsend
    obtain ⟨-, rfl⟩ := Prod.mk.inj h
    exact ⟨rfl, Sink.taken_send hsend⟩
  · cases h

/-- **A message that was written with success** is one that goes into a frame, and it is in the
stream. -/
theorem taken_writeEncoded {w' : Writer} {h : Header} {body : Bytes}
    (hwrite : w.writeEncoded h body = (.ok (), w')) :
    Message.Fits w.codec (h, body) ∧ w'.codec = w.codec ∧
      w'.sink.taken = w.sink.taken ++ Message.bytes w.codec (h, body) := by
  rw [writeEncoded] at hwrite
  split at hwrite
  · cases hwrite
  · rename_i frame hraw
    have hfits : Message.Fits w.codec (h, body) := ⟨frame, hraw⟩
    obtain rfl := Except.ok.inj ((Message.encodeRaw_of_fits hfits).symm.trans hraw)
    exact ⟨hfits, taken_writeFrame hwrite⟩

/-- A value is written as its encoding is. -/
theorem writeMessage_eq {h : Header} {d : Datum} {body : Bytes}
    (hbody : w.codec.encode d.shape d.value = .ok body) :
    w.writeMessage h d = w.writeEncoded h body := by
  rw [writeMessage, writeEncoded, Message.encode, hbody]
  rfl

/-- **A message that goes into a frame is written**, and the writer stays open. -/
theorem writeEncoded_of_fits (hopen : w.Open) {m : Header × Bytes}
    (hfits : Message.Fits w.codec m) :
    ∃ w', w.writeEncoded m.1 m.2 = (.ok (), w') ∧ w'.Open ∧ w'.codec = w.codec ∧
      w'.sink.taken = w.sink.taken ++ Message.bytes w.codec m ∧
      w'.sink.shutdowns = w.sink.shutdowns := by
  obtain ⟨s', hs', htaken, hbehaviour, hshutdowns⟩ :=
    Sink.send_accepts hopen.accepts (Message.bytes w.codec m)
  refine ⟨{ w with sink := s' }, ?_, ⟨hopen.closed, hbehaviour ▸ hopen.accepts⟩, rfl, htaken,
    hshutdowns⟩
  simp only [writeEncoded, Message.encodeRaw_of_fits hfits, writeFrame, hopen.closed,
    Bool.false_eq_true, if_false, hs']

/-- **A message that does not go into a frame** leaves the writer as it is. -/
theorem writeEncoded_of_not_fits {m : Header × Bytes} (h : ¬ Message.Fits w.codec m) :
    ∃ e, w.writeEncoded m.1 m.2 = (.error e, w) := by
  cases hraw : Message.encodeRaw w.codec m.1 m.2 with
  | error e => exact ⟨e, by simp only [writeEncoded, hraw]⟩
  | ok b => exact absurd ⟨b, hraw⟩ h

/-! ## Streams that fail -/

/-- What closing an open writer leaves. -/
theorem close_of_open (hopen : w.closed = false) :
    ∃ r s, w.close = (r, { codec := w.codec, sink := s, closed := true }) ∧
      s.taken = w.sink.taken ∧ s.shutdowns = w.sink.shutdowns + 1 := by
  simp only [close, hopen, Bool.false_eq_true, if_false, Sink.shutdown]
  cases w.sink.behaviour.shutdown w.sink.shutdowns with
  | none => exact ⟨_, _, rfl, rfl, rfl⟩
  | some e => exact ⟨_, _, rfl, rfl, rfl⟩

/-- Closing changes neither the codec nor what has been written. -/
theorem close_snd (w : Writer) :
    w.close.2.codec = w.codec ∧ w.close.2.closed = true ∧
      w.close.2.sink.taken = w.sink.taken := by
  cases hclosed : w.closed with
  | true =>
    simp only [close, hclosed, if_true]
    exact ⟨trivial, trivial, trivial⟩
  | false =>
    obtain ⟨r, s, hclose, htaken, -⟩ := close_of_open hclosed
    rw [hclose]
    exact ⟨rfl, rfl, htaken⟩

/-- Closing a writer that is open shuts its stream down. -/
theorem shutdowns_close (hopen : w.closed = false) :
    w.close.2.sink.shutdowns = w.sink.shutdowns + 1 := by
  obtain ⟨r, s, hclose, -, hshutdowns⟩ := close_of_open hopen
  rw [hclose]
  exact hshutdowns

/-- The fault of the stream when a message is written, if there is one. -/
def faults (w : Writer) (m : Header × Bytes) : List IoError :=
  match (w.writeEncoded m.1 m.2).1 with
  | .error (.io e) => [e]
  | _ => []

/-- **What becomes of a message** that is given to a writer, on any stream: the faults in writing
it, and the writer behind it. -/
inductive Fate (w : Writer) (m : Header × Bytes) : List IoError → Writer → Prop
  /-- it goes into no frame -/
  | misfit (hmisfit : ¬ Message.Fits w.codec m) : Fate w m [] w
  /-- the writer has been closed before -/
  | refused (hfits : Message.Fits w.codec m) (hclosed : w.closed = true) : Fate w m [] w
  | written {w' : Writer} (hfits : Message.Fits w.codec m) (hopen : w.closed = false)
      (hopen' : w'.closed = false) (hcodec : w'.codec = w.codec)
      (htaken : w'.sink.taken = w.sink.taken ++ Message.bytes w.codec m)
      (hshutdowns : w'.sink.shutdowns = w.sink.shutdowns) : Fate w m [] w'
  /-- the stream fails in it -/
  | broken {e : IoError} {w' : Writer} {part : Bytes} (hfits : Message.Fits w.codec m)
      (hopen : w.closed = false) (hclosed : w'.closed = true) (hcodec : w'.codec = w.codec)
      (hpart : part <+: Message.bytes w.codec m) (htaken : w'.sink.taken = w.sink.taken ++ part) :
      Fate w m [e] w'

theorem fate_writeEncoded (w : Writer) (m : Header × Bytes) :
    w.Fate m (w.faults m) (w.writeEncoded m.1 m.2).2 := by
  by_cases hfits : Message.Fits w.codec m
  · simp only [faults, writeEncoded, Message.encodeRaw_of_fits hfits, writeFrame]
    cases hclosed : w.closed with
    | true => exact .refused hfits hclosed
    | false =>
      simp only [Bool.false_eq_true, if_false]
      obtain ⟨n, htaken, hshutdowns⟩ := Sink.taken_send_front (Message.bytes w.codec m) w.sink
      cases hsend : w.sink.send (Message.bytes w.codec m) with
      | mk r s =>
      rw [hsend] at htaken hshutdowns
      cases r with
      | ok u => exact .written hfits hclosed rfl rfl (Sink.taken_send hsend) hshutdowns
      | error e =>
        obtain ⟨hcodec, hclosed', htaken'⟩ := close_snd { codec := w.codec, sink := s }
        exact .broken hfits hclosed hclosed' hcodec (List.take_prefix n _) (htaken'.trans htaken)
  · cases hraw : Message.encodeRaw w.codec m.1 m.2 with
    | error e =>
      -- what goes into no frame is not for the stream to fail
      have hfaults : w.faults m = [] := by
        simp only [faults, writeEncoded, hraw]
        cases e with
        | io e => cases Message.ofStream_of_encodeRaw hraw
        | _ => rfl
      rw [hfaults]
      simp only [writeEncoded, hraw]
      exact .misfit hfits
    | ok b => exact absurd ⟨b, hraw⟩ hfits

/-- Writing keeps the codec. -/
theorem codec_writeEncoded (w : Writer) (m : Header × Bytes) :
    (w.writeEncoded m.1 m.2).2.codec = w.codec := by
  have hfate := w.fate_writeEncoded m
  generalize (w.writeEncoded m.1 m.2).2 = w' at hfate ⊢
  generalize w.faults m = faults at hfate
  cases hfate with
  | misfit | refused => rfl
  | written _ _ _ hcodec => exact hcodec
  | broken _ _ _ hcodec => exact hcodec

/-- A writer that is closed writes nothing. -/
theorem writeEncoded_of_closed (hclosed : w.closed = true) (m : Header × Bytes) :
    (w.writeEncoded m.1 m.2).2 = w := by
  have hfate := w.fate_writeEncoded m
  generalize w.faults m = faults at hfate
  generalize (w.writeEncoded m.1 m.2).2 = w' at hfate ⊢
  cases hfate with
  | misfit => rfl
  | refused => rfl
  | written _ hopen => cases hopen.symm.trans hclosed
  | broken _ hopen => cases hopen.symm.trans hclosed

end Writer

end WireCall
