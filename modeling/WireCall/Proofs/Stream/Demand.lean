import WireCall.Proofs.Frame.Format
import WireCall.Proofs.Negotiation.Pieces

/-!
# Reading on

A call that needs bytes looks at those that it holds and reads on while they are not enough; in the
meantime the stream may go on. Which bytes are not enough, and how many one read asks for, makes up
the *demand* of the call. If a demand is limited, which means that so many bytes are always enough,
a call makes no more reads than that and never holds more than one read beyond it
(`Demand.Reaches.asks`, `Demand.Reaches.length_lt`).

A frame and the options are both read like this (`Reader.serves_takeFrame`,
`Negotiation.serves_receive`). What the other end announces cannot get past their limits, as the
lengths in a frame are checked before any byte behind them is waited for
(`Frame.length_lt_of_decode_none`). So both end, whatever is sent (`reading_bounded`).
-/

namespace WireCall

/-- **What a call reads for**: which bytes are not enough, and how many more one read asks for. -/
structure Demand where
  wants : Bytes → Prop
  size : Nat
  size_pos : 0 < size

namespace Demand

variable {q : Demand} {held held' : Bytes} {s s' : Source} {n limit : Nat}

/-! ## A call under way -/

/-- **A call under way.** It has started with some bytes and a stream. By now it has made so many
reads that brought bytes, and there are the bytes that it holds and what is left of the stream. A
read that waits is made again when the stream has gone on. -/
inductive Reaches (q : Demand) (held : Bytes) (s : Source) : Nat → Bytes → Source → Prop
  | start : Reaches q held s 0 held s
  | read {n : Nat} {held' b : Bytes} {s' s'' : Source} (h : Reaches q held s n held' s')
      (hwants : q.wants held') (hread : s'.read q.size = (.bytes b, s'')) :
      Reaches q held s (n + 1) (held' ++ b) s''
  | wait {n : Nat} {held' : Bytes} {s' s'' : Source} (h : Reaches q held s n held' s')
      (hread : s'.read q.size = (.waits, s'')) : Reaches q held s n held' s''
  | arrive {n : Nat} {held' : Bytes} {s' : Source} (h : Reaches q held s n held' s')
      (piece : Bytes) : Reaches q held s n held' (s'.arrive piece)
  | finish {n : Nat} {held' : Bytes} {s' : Source} (h : Reaches q held s n held' s')
      (e : Ending) : Reaches q held s n held' (s'.finish e)

theorem Reaches.trans {held'' : Bytes} {s'' : Source} {m : Nat}
    (h : q.Reaches held s n held' s') (h' : q.Reaches held' s' m held'' s'') :
    q.Reaches held s (n + m) held'' s'' := by
  induction h' with
  | start => exact h
  | read _ hwants hread ih => exact ih.read hwants hread
  | wait _ hread ih => exact ih.wait hread
  | arrive _ piece ih => exact ih.arrive piece
  | finish _ e ih => exact ih.finish e

/-- Whether so many bytes are always enough. -/
def IsLimit (q : Demand) (limit : Nat) : Prop := ∀ held, q.wants held → held.length < limit

/-- Each read has brought a byte at least. -/
theorem Reaches.length_le (h : q.Reaches held s n held' s') :
    held.length + n ≤ held'.length := by
  induction h with
  | start => exact Nat.le_refl _
  | read _ _ hread ih =>
    obtain ⟨hne, -⟩ := Source.read_bytes q.size_pos hread
    have := List.length_pos_iff.mpr hne
    rw [List.length_append]
    omega
  | wait _ _ ih | arrive _ _ ih | finish _ _ ih => exact ih

/-- **A call that wants more** is within the limit, and so is the read that it is going to make. -/
theorem Reaches.asks (h : q.Reaches held s n held' s') (hlimit : q.IsLimit limit)
    (hwants : q.wants held') : held'.length < limit ∧ n + 1 ≤ limit := by
  have hle := h.length_le
  have hlt := hlimit held' hwants
  omega

/-- The reads that have brought bytes are no more than the limit says. -/
theorem Reaches.reads_le (h : q.Reaches held s n held' s') (hlimit : q.IsLimit limit) :
    n ≤ limit := by
  induction h with
  | start => exact Nat.zero_le _
  | read h hwants _ _ => exact (h.asks hlimit hwants).2
  | wait _ _ ih | arrive _ _ ih | finish _ _ ih => exact ih

/-- **The bytes of a call** that has started with few do not reach one read beyond the limit. -/
theorem Reaches.length_lt (h : q.Reaches held s n held' s') (hlimit : q.IsLimit limit)
    (hheld : held.length < limit + q.size) : held'.length < limit + q.size := by
  induction h with
  | start => exact hheld
  | read h hwants hread _ =>
    obtain ⟨-, hle, -⟩ := Source.read_bytes q.size_pos hread
    have hlt := (h.asks hlimit hwants).1
    rw [List.length_append]
    omega
  | wait _ _ ih | arrive _ _ ih | finish _ _ ih => exact ih

/-! ## Functions that read on -/

/-- Where a call comes to a halt: what it keeps, if it is going to be resumed, and what it leaves of
the stream. -/
structure Halt where
  kept : Option Bytes
  left : Source

/-- **How a call halts**, with the number of reads that it has made for it. -/
inductive Halts (q : Demand) (held : Bytes) (s : Source) : Nat → Halt → Prop
  /-- there is enough -/
  | enough (hwants : ¬ q.wants held) : Halts q held s 0 ⟨none, s⟩
  /-- there is not enough, and there will not be more -/
  | ended {e : Ending} {s' : Source} (hwants : q.wants held)
      (hread : s.read q.size = (.ended e, s')) : Halts q held s 1 ⟨none, s'⟩
  /-- there is not enough yet -/
  | waits {s' : Source} (hwants : q.wants held) (hread : s.read q.size = (.waits, s')) :
      Halts q held s 1 ⟨some held, s'⟩

/-- All reads of a call are within the limit. -/
theorem Halts.reads_le {k : Nat} {out : Halt} (hhalts : q.Halts held' s' k out)
    (hlimit : q.IsLimit limit) (h : q.Reaches held s n held' s') : n + k ≤ limit := by
  cases hhalts with
  | enough => exact h.reads_le hlimit
  | ended hwants => exact (h.asks hlimit hwants).2
  | waits hwants => exact (h.asks hlimit hwants).2

variable {α : Type} {f : Bytes → Source → α} {halt : α → Halt}

/-- **A function serves a demand** if it halts, or makes a read and goes on with what it brings. -/
def Serves (f : Bytes → Source → α) (halt : α → Halt) (q : Demand) : Prop :=
  ∀ held s, (∃ k, q.Halts held s k (halt (f held s))) ∨
    ∃ b s', q.wants held ∧ s.read q.size = (.bytes b, s') ∧ f held s = f (held ++ b) s'

/-- A function that does this serves the demand: where the bytes are enough it leaves the stream
alone, and where they are not it makes a read, and goes on, gives up or waits as the read says. -/
theorem Serves.of_read
    (henough : ∀ {held : Bytes} (s : Source), ¬ q.wants held → halt (f held s) = ⟨none, s⟩)
    (hbytes : ∀ {held b : Bytes} {s s' : Source}, q.wants held →
      s.read q.size = (.bytes b, s') → f held s = f (held ++ b) s')
    (hended : ∀ {held : Bytes} {s s' : Source} {e : Ending}, q.wants held →
      s.read q.size = (.ended e, s') → halt (f held s) = ⟨none, s'⟩)
    (hwaits : ∀ {held : Bytes} {s s' : Source}, q.wants held →
      s.read q.size = (.waits, s') → halt (f held s) = ⟨some held, s'⟩) : Serves f halt q := by
  intro held s
  by_cases hwants : q.wants held
  · cases hread : s.read q.size with
    | mk answer s' =>
    cases answer with
    | bytes b => exact .inr ⟨b, s', hwants, rfl, hbytes hwants hread⟩
    | ended e => exact .inl ⟨1, hended hwants hread ▸ .ended hwants hread⟩
    | waits => exact .inl ⟨1, hwaits hwants hread ▸ .waits hwants hread⟩
  · exact .inl ⟨0, henough s hwants ▸ .enough hwants⟩

/-- **A call comes to a halt** wherever it is resumed, and all its reads are within the limit. -/
theorem Serves.exists_halt (hserves : Serves f halt q) (hlimit : q.IsLimit limit)
    (h : q.Reaches held s n held' s') :
    ∃ m held'' s'' k, q.Reaches held' s' m held'' s'' ∧ f held' s' = f held'' s'' ∧
      q.Halts held'' s'' k (halt (f held' s')) ∧ n + m + k ≤ limit := by
  induction hlength : s'.unread.length using Nat.strong_induction_on generalizing n held' s' with
  | _ length ih =>
  rcases hserves held' s' with ⟨k, hhalts⟩ | ⟨b, s₁, hwants, hread, hgoesOn⟩
  · exact ⟨0, held', s', k, .start, rfl, hhalts, hhalts.reads_le hlimit h⟩
  · have hlt := Source.length_unread_lt q.size_pos hread
    obtain ⟨m, held'', s'', k, hmore, hsame, hhalts, hreads⟩ :=
      ih _ (hlength ▸ hlt) (h.read hwants hread) rfl
    have hfirst : q.Reaches held' s' (0 + 1) (held' ++ b) s₁ := .read .start hwants hread
    refine ⟨0 + 1 + m, held'', s'', k, hfirst.trans hmore, hgoesOn.trans hsame, ?_, ?_⟩
    · rw [hgoesOn]
      exact hhalts
    · omega

end Demand

/-! ## Frames -/

/-- The length of the longest frame. -/
def Frame.longest : Nat := fixedLength + maxHeader + maxBody

example : Frame.longest = 18 + 65535 + 16777216 := rfl

/-- **More bytes are wanted** only where a frame can still be had, as the lengths in the fixed part
are checked first. -/
theorem Frame.length_lt_of_decode_none {b : Bytes} (h : (decode b).1 = .ok none) :
    b.length < longest := by
  by_cases hlong : fixedLength ≤ b.length
  · cases hfixed : Fixed.decode b with
    | error e => simp [decode_of_refused hlong hfixed] at h
    | ok p =>
      obtain ⟨-, -, hheader, hbody⟩ := Fixed.encode_of_decode hlong hfixed
      by_cases htotal : p.total ≤ b.length
      · rw [decode_of_total hlong hfixed htotal] at h
        split at h <;> cases h
      · rw [Fixed.total] at htotal
        rw [longest]
        omega
  · exact Nat.lt_of_lt_of_le (Nat.lt_of_not_le hlong) (by decide)

namespace Reader

/-- **What a reader reads for**: a frame that is whole, or refused. -/
def frameDemand : Demand := ⟨fun held => (Frame.decode held).1 = .ok none, readSize, by decide⟩

/-- Where looking for a frame comes to a halt. -/
def frameHalt : Reading Frame × Decoder × Source → Demand.Halt
  | (.waits, d, s) => ⟨some d.buffer, s⟩
  | (_, _, s) => ⟨none, s⟩

theorem isLimit_longest : frameDemand.IsLimit Frame.longest :=
  fun _ => Frame.length_lt_of_decode_none

/-- What follows from one read where there is no whole frame yet. -/
theorem takeFrame_of_none {held : Bytes} (hwants : (Frame.decode held).1 = .ok none) (s : Source) :
    takeFrame ⟨held⟩ s =
      match s.read readSize with
      | (.bytes b, s') => takeFrame ⟨held ++ b⟩ s'
      | (.ended e, s') => (.failed (Negotiation.endError held e), ⟨held⟩, s')
      | (.waits, s') => (.waits, ⟨held⟩, s') := by
  have hdecode : Frame.decode held = (.ok none, held) :=
    Prod.ext hwants (Frame.rest_of_decode_none (Prod.ext hwants rfl))
  have hnext : (⟨held⟩ : Decoder).next = (.ok none, ⟨held⟩) := by rw [Decoder.next, hdecode]
  rw [takeFrame]
  simp only [hnext]
  split <;> simp only [*, Decoder.extend]

/-- **Looking for a frame** is reading for one. -/
theorem serves_takeFrame : Demand.Serves (takeFrame ⟨·⟩) frameHalt frameDemand := by
  apply Demand.Serves.of_read
  case henough =>
    intro held s henough
    rw [takeFrame]
    split
    · rfl
    · rfl
    · rename_i hnext
      exact absurd (congrArg Prod.fst (Decoder.decode_of_next hnext)) henough
  case hbytes =>
    intro held b s s' hwants hread
    rw [takeFrame_of_none hwants, show s.read readSize = _ from hread]
  case hended =>
    intro held s s' e hwants hread
    rw [takeFrame_of_none hwants, show s.read readSize = _ from hread]
    rfl
  case hwaits =>
    intro held s s' hwants hread
    rw [takeFrame_of_none hwants, show s.read readSize = _ from hread]
    rfl

/-- **A reader waits for a frame** only below the limit, and only on a stream that has not ended. -/
theorem not_waits_takeFrame {d : Decoder} {s : Source}
    (h : Frame.longest ≤ d.buffer.length + s.unread.length ∨ s.ending.isSome) :
    (takeFrame d s).1 ≠ .waits := by
  intro hwaits
  have htakes := takes_takeFrame d s
  rw [hwaits] at htakes
  cases htakes with
  | waits hframe _ hnone _ =>
    have hlt := Frame.length_lt_of_decode_none hframe
    rw [List.length_append] at hlt
    rcases h with hlong | hsome
    · omega
    · rw [hnone] at hsome
      cases hsome

end Reader

/-! ## Options -/

namespace Negotiation

variable {held : Bytes} {s : Source}

/-- **What the negotiation reads for**: a line, unless it is too long. -/
def lineDemand : Demand := ⟨fun held => judge held = .more, readSize, by decide⟩

/-- Where the negotiation comes to a halt. -/
def lineHalt : Outcome × Source → Demand.Halt
  | (.waits buffer, s) => ⟨some buffer, s⟩
  | (_, s) => ⟨none, s⟩

theorem isLimit_maxDocument : lineDemand.IsLimit Options.maxDocument :=
  fun _ hwants => (judge_eq_more.mp hwants).2

/-- **The negotiation** is reading for a line. -/
theorem serves_receive : Demand.Serves receive lineHalt lineDemand := by
  apply Demand.Serves.of_read
  case henough =>
    intro held s henough
    rw [receive]
    split
    · rfl
    · rfl
    · rename_i hjudge
      exact absurd hjudge henough
  case hbytes =>
    intro held b s s' hwants hread
    rw [receive_of_more hwants, show s.read readSize = _ from hread]
  case hended =>
    intro held s s' e hwants hread
    rw [receive_of_more hwants, show s.read readSize = _ from hread]
    rfl
  case hwaits =>
    intro held s s' hwants hread
    rw [receive_of_more hwants, show s.read readSize = _ from hread]
    rfl

/-- **The negotiation waits** only below the limit, and only on a stream that has not ended. -/
theorem not_waits_receive
    (h : Options.maxDocument ≤ held.length + s.unread.length ∨ s.ending.isSome) (b : Bytes) :
    (receive held s).1 ≠ .waits b := by
  intro hwaits
  have hsettles := settles_receive held s
  generalize receive held s = out at hwaits hsettles
  cases hsettles with
  | waits _ hshort hnone _ =>
    rw [List.length_append] at hshort
    rcases h with hlong | hsome
    · omega
    · rw [hnone] at hsome
      cases hsome
  | _ => cases hwaits

end Negotiation

/-! ## Both -/

section Both

open Reader Negotiation

/-- **Reading is bounded and ends**, whatever stream there is and in whichever pieces it arrives.

Whenever a call for a frame asks for more it holds fewer bytes than the longest frame has; each read
brings a byte at least, unless it is the last one; and all reads of the call, with the ones that are
still to come, are no more than the longest frame has bytes. The negotiation starts with nothing,
asks only while it holds fewer than `Options.maxDocument` bytes, and never takes as much as a whole
read beyond that. Both halt where enough is held or nothing is there, and they do not wait once
bytes have arrived up to their limit, or the stream has ended. -/
theorem reading_bounded :
    (∀ {d : Decoder} {s s' : Source} {n : Nat} {held : Bytes},
      frameDemand.Reaches d.buffer s n held s' →
        d.buffer.length + n ≤ held.length ∧
        ((Frame.decode held).1 = .ok none → held.length < Frame.longest) ∧
        (∃ m held' s'' k, frameDemand.Reaches held s' m held' s'' ∧
          takeFrame ⟨held⟩ s' = takeFrame ⟨held'⟩ s'' ∧
          frameDemand.Halts held' s'' k (frameHalt (takeFrame ⟨held⟩ s')) ∧
          n + m + k ≤ Frame.longest) ∧
        (Frame.longest ≤ held.length + s'.unread.length ∨ s'.ending.isSome →
          (takeFrame ⟨held⟩ s').1 ≠ .waits)) ∧
    ∀ {s s' : Source} {n : Nat} {held : Bytes}, lineDemand.Reaches [] s n held s' →
      n ≤ held.length ∧ held.length < Options.maxDocument + Negotiation.readSize ∧
      (judge held = .more → held.length < Options.maxDocument) ∧
      (∃ m held' s'' k, lineDemand.Reaches held s' m held' s'' ∧
        receive held s' = receive held' s'' ∧
        lineDemand.Halts held' s'' k (lineHalt (receive held s')) ∧
        n + m + k ≤ Options.maxDocument) ∧
      (Options.maxDocument ≤ held.length + s'.unread.length ∨ s'.ending.isSome →
        ∀ b, (receive held s').1 ≠ .waits b) := by
  constructor
  · intro d s s' n held h
    refine ⟨h.length_le, fun hwants => (h.asks isLimit_longest hwants).1, ?_, ?_⟩
    · exact serves_takeFrame.exists_halt isLimit_longest h
    · exact not_waits_takeFrame
  · intro s s' n held h
    have hle : n ≤ held.length := by simpa using h.length_le
    refine ⟨hle, h.length_lt isLimit_maxDocument (by decide),
      fun hwants => (h.asks isLimit_maxDocument hwants).1, ?_, ?_⟩
    · exact serves_receive.exists_halt isLimit_maxDocument h
    · exact not_waits_receive

/-- The fixed part of a frame with the longest header and the longest body. -/
def announcement : Bytes := (⟨1, ⟨true⟩, 65535, 16777216, 0⟩ : Frame.Fixed).encode

/-- A few blanks. -/
def blanks : Bytes := List.replicate 100 0x20

/-- A call for a frame that has read an announcement and nothing else yet; and a negotiation that
has read some blanks, and comes to an end as soon as enough of them arrive. -/
theorem reading_bounded_announced :
    frameDemand.Reaches [] ⟨[announcement], none⟩ 1 announcement ⟨[], none⟩ ∧
      (Frame.decode announcement).1 = .ok none ∧ announcement.length < Frame.longest ∧
      lineDemand.Reaches [] ⟨[blanks], none⟩ 1 blanks ⟨[List.replicate 4000 0x20], none⟩ ∧
      judge blanks = .more ∧ blanks.length < Options.maxDocument ∧
      ∀ b, (receive blanks ⟨[List.replicate 4000 0x20], none⟩).1 ≠ .waits b := by
  have hwants : (Frame.decode announcement).1 = .ok none := rfl
  have hframe : frameDemand.Reaches [] ⟨[announcement], none⟩ 1 ([] ++ announcement) ⟨[], none⟩ :=
    .read .start rfl rfl
  have hmore : judge blanks = .more := judge_eq_more.mpr ⟨by decide, by decide⟩
  have hread : (⟨[blanks], none⟩ : Source).read Negotiation.readSize =
      (.bytes blanks, ⟨[], none⟩) := by
    decide +kernel
  have harrive : Source.arrive ⟨[], none⟩ (List.replicate 4000 0x20) =
      ⟨[List.replicate 4000 0x20], none⟩ := rfl
  have hline : lineDemand.Reaches [] ⟨[blanks], none⟩ 1 ([] ++ blanks)
      ⟨[List.replicate 4000 0x20], none⟩ :=
    harrive ▸ .arrive (.read .start hmore hread) _
  obtain ⟨-, hasks, -⟩ := reading_bounded.1 (d := {}) hframe
  obtain ⟨-, -, hasks', -, hends⟩ := reading_bounded.2 hline
  refine ⟨hframe, hwants, hasks hwants, hline, hmore, hasks' hmore, hends (.inl ?_)⟩
  decide +kernel

end Both

end WireCall
