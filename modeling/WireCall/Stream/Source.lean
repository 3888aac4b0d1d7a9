import WireCall.Bytes
import WireCall.IoError

/-!
# The reading end of a stream

A source holds the pieces that have arrived and not been read, and what comes behind them, if that
is known already: the end of the stream or a failure. One read gives bytes of one piece only, and
at most as many as are asked for. Where nothing has arrived, a read waits.
-/

namespace WireCall

/-- What comes behind all bytes of a stream. -/
inductive Ending where
  /-- the other end has sent everything -/
  | finished
  | failed (e : IoError)
  deriving DecidableEq, Repr

/-- The reading end of a stream. -/
structure Source where
  pieces : List Bytes := []
  ending : Option Ending := none
  deriving DecidableEq

/-- The answer to one read. -/
inductive ReadAnswer where
  /-- some bytes, never none -/
  | bytes (b : Bytes)
  | ended (e : Ending)
  /-- nothing has arrived yet -/
  | waits
  deriving DecidableEq

namespace Source

/-- A piece arrives. -/
def arrive (s : Source) (b : Bytes) : Source :=
  if s.ending.isSome then s else { s with pieces := s.pieces ++ [b] }

/-- The end arrives; only the first one counts. -/
def finish (s : Source) (e : Ending) : Source :=
  if s.ending.isSome then s else { s with ending := some e }

/-- Reads at most `max` bytes. -/
def readFrom (max : Nat) (ending : Option Ending) : List Bytes → ReadAnswer × Source
  | [] =>
    match ending with
    | some e => (.ended e, ⟨[], ending⟩)
    | none => (.waits, ⟨[], ending⟩)
  | [] :: pieces => readFrom max ending pieces
  | piece :: pieces =>
    match piece.splitAt max with
    | (front, []) => (.bytes front, ⟨pieces, ending⟩)
    | (front, back) => (.bytes front, ⟨back :: pieces, ending⟩)

/-- Reads at most `max` bytes. -/
def read (max : Nat) (s : Source) : ReadAnswer × Source := readFrom max s.ending s.pieces

/-- The bytes that have arrived and not been read. -/
def unread (s : Source) : Bytes := s.pieces.flatten

theorem readFrom_bytes {max : Nat} (hmax : 0 < max) {ending : Option Ending}
    {pieces : List Bytes} {b : Bytes} {s : Source}
    (h : readFrom max ending pieces = (.bytes b, s)) :
    b ≠ [] ∧ b.length ≤ max ∧ pieces.flatten = b ++ s.unread ∧ s.ending = ending := by
  induction pieces with
  | nil => cases ending <;> simp [readFrom] at h
  | cons piece pieces ih =>
    cases piece with
    | nil => simpa using ih h
    | cons c rest =>
      simp only [readFrom] at h
      rw [List.splitAt_eq] at h
      have hne : List.take max (c :: rest) ≠ [] := by
        cases max with
        | zero => omega
        | succ n => simp
      split at h
      · rename_i front heq
        obtain ⟨h₁, h₂⟩ := Prod.mk.inj heq
        obtain ⟨hb, hs⟩ := Prod.mk.inj h
        obtain rfl := ReadAnswer.bytes.inj hb
        subst hs h₁
        refine ⟨hne, List.length_take_le _ _, ?_, rfl⟩
        have : List.take max (c :: rest) = c :: rest :=
          List.take_of_length_le (List.drop_eq_nil_iff.mp h₂)
        simp [unread, this]
      · rename_i front back _ heq
        obtain ⟨h₁, h₂⟩ := Prod.mk.inj heq
        obtain ⟨hb, hs⟩ := Prod.mk.inj h
        obtain rfl := ReadAnswer.bytes.inj hb
        subst hs h₁
        refine ⟨hne, List.length_take_le _ _, ?_, rfl⟩
        simp only [unread, List.flatten_cons, ← h₂, ← List.append_assoc, List.take_append_drop]

/-- A read gives the front of what is unread, and never nothing. -/
theorem read_bytes {max : Nat} (hmax : 0 < max) {s s' : Source} {b : Bytes}
    (h : s.read max = (.bytes b, s')) :
    b ≠ [] ∧ b.length ≤ max ∧ s.unread = b ++ s'.unread ∧ s'.ending = s.ending :=
  readFrom_bytes hmax h

theorem length_unread_lt {max : Nat} (hmax : 0 < max) {s s' : Source} {b : Bytes}
    (h : s.read max = (.bytes b, s')) : s'.unread.length < s.unread.length := by
  obtain ⟨hne, -, hsplit, -⟩ := read_bytes hmax h
  have := List.length_pos_iff.mpr hne
  rw [hsplit, List.length_append]
  omega

end Source

end WireCall
