import WireCall.Bytes
import WireCall.IoError

/-!
# The writing end of a stream

A sink takes bytes. How it answers each write, flush and shutdown is its *behaviour*, which may be
anything: a write may take only some of the bytes, take none, or fail. The sink itself keeps what
it has taken and how often it was called.

`Sink.writeAll` writes bytes until all are taken or a write takes nothing; the bytes taken before a
failure stay taken (`Sink.taken_writeAll`).
-/

namespace WireCall

/-- The answer to one write. -/
inductive WriteAnswer where
  /-- so many of the offered bytes are taken -/
  | takes (n : Nat)
  | fails (e : IoError)
  deriving DecidableEq, Repr

/-- How a stream answers. -/
structure SinkBehaviour where
  /-- the answer to a write, by the number of writes before it, of bytes taken before it, and of
  bytes offered -/
  write : (calls taken offered : Nat) → WriteAnswer
  /-- whether a flush fails, by the number of flushes before it -/
  flush : (calls : Nat) → Option IoError
  /-- whether a shutdown fails, by the number of shutdowns before it -/
  shutdown : (calls : Nat) → Option IoError

/-- The behaviour of a stream that takes everything. -/
def SinkBehaviour.faithful : SinkBehaviour where
  write _ _ offered := .takes offered
  flush _ := none
  shutdown _ := none

/-- The writing end of a stream. -/
structure Sink where
  behaviour : SinkBehaviour
  /-- the pieces taken so far, the last one first -/
  pieces : List Bytes := []
  /-- the number of bytes taken so far -/
  count : Nat := 0
  writes : Nat := 0
  flushes : Nat := 0
  shutdowns : Nat := 0

namespace Sink

/-- The bytes taken so far. -/
def taken (s : Sink) : Bytes := s.pieces.reverse.flatten

/-- The sink after one more write, which took the given bytes. -/
def take (s : Sink) (b : Bytes) (n : Nat) : Sink :=
  { s with pieces := b :: s.pieces, count := s.count + n, writes := s.writes + 1 }

@[simp]
theorem taken_take (s : Sink) (b : Bytes) (n : Nat) : (s.take b n).taken = s.taken ++ b := by
  simp [taken, take]

/-- Writes the bytes, of which there are `left`, in as many writes as it needs. -/
def writeLoop (left : Nat) (b : Bytes) (s : Sink) : Except IoError Unit × Sink :=
  if left = 0 then (.ok (), s)
  else
    match s.behaviour.write s.writes s.count left with
    | .fails e => (.error e, { s with writes := s.writes + 1 })
    | .takes 0 => (.error .wroteNothing, { s with writes := s.writes + 1 })
    | .takes (n + 1) =>
      let m := min (n + 1) left
      writeLoop (left - m) (b.drop m) (s.take (b.take m) m)
termination_by left
decreasing_by omega

/-- Writes all bytes. -/
def writeAll (b : Bytes) (s : Sink) : Except IoError Unit × Sink := s.writeLoop b.length b

/-- Flushes the stream. -/
def flush (s : Sink) : Except IoError Unit × Sink :=
  let after := { s with flushes := s.flushes + 1 }
  match s.behaviour.flush s.flushes with
  | some e => (.error e, after)
  | none => (.ok (), after)

/-- Shuts the stream down. -/
def shutdown (s : Sink) : Except IoError Unit × Sink :=
  let after := { s with shutdowns := s.shutdowns + 1 }
  match s.behaviour.shutdown s.shutdowns with
  | some e => (.error e, after)
  | none => (.ok (), after)

/-- Writes all bytes and flushes. -/
def send (b : Bytes) (s : Sink) : Except IoError Unit × Sink :=
  match s.writeAll b with
  | (.ok (), s) => s.flush
  | (.error e, s) => (.error e, s)

/-- What is taken in the end is what was taken before and a part of the bytes, all of them if the
write succeeds. -/
theorem taken_writeLoop (left : Nat) (b : Bytes) (s : Sink) (h : left = b.length) :
    ∃ n ≤ b.length, (s.writeLoop left b).2.taken = s.taken ++ b.take n ∧
      ((s.writeLoop left b).1 = .ok () → n = b.length) := by
  induction left using Nat.strongRecOn generalizing b s with
  | ind left ih =>
    rw [writeLoop]
    split
    · exact ⟨0, Nat.zero_le _, by simp, fun _ => by omega⟩
    · split
      · exact ⟨0, Nat.zero_le _, by simp [taken], fun h => by simp at h⟩
      · exact ⟨0, Nat.zero_le _, by simp [taken], fun h => by simp at h⟩
      · rename_i hleft _ n _
        have hm : min (n + 1) left ≤ left := Nat.min_le_right _ _
        obtain ⟨k, hk, htaken, hall⟩ :=
          ih (left - min (n + 1) left) (by omega) (b.drop (min (n + 1) left))
            (s.take (b.take (min (n + 1) left)) (min (n + 1) left)) (by simp [h])
        refine ⟨min (n + 1) left + k, ?_, ?_, fun hok => ?_⟩
        · simp only [List.length_drop] at hk
          omega
        · rw [htaken, taken_take, List.append_assoc, ← List.take_add]
        · have := hall hok
          simp only [List.length_drop] at this
          omega

theorem taken_writeAll (b : Bytes) (s : Sink) :
    ∃ n ≤ b.length, (s.writeAll b).2.taken = s.taken ++ b.take n ∧
      ((s.writeAll b).1 = .ok () → n = b.length) :=
  taken_writeLoop b.length b s rfl

end Sink

end WireCall
