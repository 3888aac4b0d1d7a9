import Mathlib.Data.List.TakeDrop
import Mathlib.Data.List.TakeWhile
import WireCall.Proofs.Message.Reader

/-!
# Reading the options in pieces

What the server makes of the bytes that it has read so far depends on the line in them and, where
there is no whole line yet, on their number (`Negotiation.judge_eq_agreed`,
`Negotiation.judge_eq_refused`, `Negotiation.judge_eq_more`). So each way in which the negotiation
can end tells something about all bytes of the stream, read or not (`Negotiation.settles_receive`).
Where the negotiation stops to wait for more bytes it goes on as if it had never stopped
(`Negotiation.receive_extend`).
-/

namespace WireCall

namespace Source

variable {max : Nat} {s s' : Source}

/-- The source after more has come, pieces or an ending, unless the stream has ended already. -/
def extend (s : Source) (more : List Bytes) (ending : Option Ending) : Source :=
  if s.ending.isSome then s else ⟨s.pieces ++ more, ending⟩

theorem arrive_eq_extend (s : Source) (p : Bytes) : s.arrive p = s.extend [p] none := by
  rw [arrive, extend]
  split
  · rfl
  · rename_i hopen
    rw [Option.not_isSome_iff_eq_none.mp hopen]

theorem finish_eq_extend (s : Source) (e : Ending) : s.finish e = s.extend [] (some e) := by
  rw [finish, extend, List.append_nil]

variable {more : List Bytes} {ending : Option Ending}

theorem extend_of_some {e : Ending} (h : s.ending = some e) : s.extend more ending = s := by
  rw [extend, h]
  rfl

theorem extend_of_none (h : s.ending = none) :
    s.extend more ending = ⟨s.pieces ++ more, ending⟩ := by
  rw [extend, h]
  rfl

theorem readFrom_append {ending' : Option Ending} {pieces : List Bytes} {b : Bytes}
    (h : readFrom max ending' pieces = (.bytes b, s')) :
    readFrom max ending (pieces ++ more) = (.bytes b, ⟨s'.pieces ++ more, ending⟩) := by
  induction pieces with
  | nil => cases ending' <;> cases h
  | cons piece pieces ih =>
    cases piece with
    | nil => exact ih h
    | cons c rest =>
      simp only [readFrom, List.cons_append] at h ⊢
      split at h
      · obtain ⟨hb, rfl⟩ := Prod.mk.inj h
        rw [ReadAnswer.bytes.inj hb]
      · obtain ⟨hb, rfl⟩ := Prod.mk.inj h
        rw [ReadAnswer.bytes.inj hb]
        rfl

/-- A read that finds some bytes takes no notice of what stands behind them. -/
theorem read_extend {b : Bytes} (hmax : 0 < max) (h : s.read max = (.bytes b, s')) :
    (s.extend more ending).read max = (.bytes b, s'.extend more ending) := by
  obtain ⟨-, -, -, hending⟩ := read_bytes hmax h
  cases hnone : s.ending with
  | some e => rw [extend_of_some hnone, extend_of_some (hending.trans hnone), h]
  | none =>
    rw [extend_of_none hnone, extend_of_none (hending.trans hnone)]
    exact readFrom_append h

theorem readFrom_of_flatten {pieces : List Bytes} (h : pieces.flatten = []) :
    readFrom max ending (pieces ++ more) = readFrom max ending more := by
  induction pieces with
  | nil => rfl
  | cons piece pieces ih =>
    obtain ⟨rfl, hmore⟩ := List.append_eq_nil_iff.mp h
    exact ih hmore

/-- A read that has waited is made again. -/
theorem read_extend_waits (h : s.read max = (.waits, s')) :
    (s.extend more ending).read max = (s'.extend more ending).read max := by
  obtain ⟨-, -, hending, hopen⟩ := read_waits h
  obtain ⟨hnone, hs, -, -⟩ := readFrom_nothing (fun b hb => by cases hb) h
  rw [extend_of_none hopen, extend_of_none (hending.trans hopen), hs]
  exact readFrom_of_flatten hnone

end Source

namespace Negotiation

variable {buffer line more rest b : Bytes} {s s' : Source} {o : Options} {e : WireError}

/-! ## What is read so far -/

theorem span_lineEnd (rest : Bytes) {front : Bytes} (h : 0x0a ∉ front) :
    front.span (· ≠ 0x0a) = (front, []) ∧
      (front ++ 0x0a :: rest).span (· ≠ 0x0a) = (front, 0x0a :: rest) := by
  have hall : ∀ b ∈ front, decide (b ≠ 0x0a) = true := by
    intro b hb
    exact decide_eq_true fun heq => h (heq ▸ hb)
  rw [List.span_eq_takeWhile_dropWhile, List.span_eq_takeWhile_dropWhile]
  constructor
  · rw [List.takeWhile_eq_self_iff.mpr hall, List.dropWhile_eq_nil_iff.mpr hall]
  · rw [List.takeWhile_append_of_pos hall, List.dropWhile_append_of_pos hall]
    simp

/-- Some bytes have one first line at most. -/
theorem line_unique {line' more' : Bytes} (h : line ++ 0x0a :: more = line' ++ 0x0a :: more')
    (hline : 0x0a ∉ line) (hline' : 0x0a ∉ line') : line = line' ∧ more = more' := by
  have hspan := (span_lineEnd more hline).2
  rw [h, (span_lineEnd more' hline').2] at hspan
  obtain ⟨hfront, hback⟩ := Prod.mk.inj hspan
  exact ⟨hfront.symm, (List.cons.inj hback).2.symm⟩

/-- Some bytes have a first line, or no line end. -/
theorem exists_line (b : Bytes) :
    0x0a ∉ b ∨ ∃ line more, b = line ++ 0x0a :: more ∧ 0x0a ∉ line := by
  by_cases h : 0x0a ∈ b
  · exact .inr (List.eq_append_cons_of_mem h)
  · exact .inl h

/-- Bytes without a line end at the front of others do not reach beyond their first line. -/
theorem length_le_of_line {front back : Bytes} (h : front ++ back = line ++ 0x0a :: more)
    (hfront : 0x0a ∉ front) : front.length ≤ line.length := by
  by_contra hlong
  have hwhole : line ++ [0x0a] <+: front ++ back := ⟨more, by rw [h, List.append_assoc]; rfl⟩
  have hwithin : line ++ [0x0a] <+: front := by
    refine List.prefix_of_prefix_length_le hwhole ⟨back, rfl⟩ ?_
    rw [List.length_append, List.length_singleton]
    omega
  exact hfront (hwithin.subset (by simp))

/-- What is made of a whole line. -/
theorem judge_of_line (hline : 0x0a ∉ line) (more : Bytes) :
    judge (line ++ 0x0a :: more) =
      match Options.ofDocument line with
      | .ok o => .agreed o more
      | .error e => .refused e := by
  cases hread : Options.ofDocument line with
  | ok o => simp only [judge, (span_lineEnd more hline).2, hread]
  | error e => simp only [judge, (span_lineEnd more hline).2, hread]

/-- What is made of bytes without a line end. -/
theorem judge_of_open (h : 0x0a ∉ buffer) :
    judge buffer =
      if buffer.length ≥ Options.maxDocument then .refused (.optionsTooLarge Options.maxDocument)
      else .more := by
  rw [judge, (span_lineEnd [] h).1]

theorem judge_eq_more :
    judge buffer = .more ↔ 0x0a ∉ buffer ∧ buffer.length < Options.maxDocument := by
  rcases exists_line buffer with hopen | ⟨line, more, rfl, hline⟩
  · rw [judge_of_open hopen]
    split
    · rename_i hlong
      exact ⟨nofun, fun h => absurd h.2 (Nat.not_lt_of_le hlong)⟩
    · rename_i hshort
      exact ⟨fun _ => ⟨hopen, Nat.lt_of_not_le hshort⟩, fun _ => rfl⟩
  · rw [judge_of_line hline]
    refine ⟨fun h => ?_, fun h => absurd (by simp) h.1⟩
    split at h <;> cases h

theorem judge_eq_agreed :
    judge buffer = .agreed o rest ↔
      ∃ line, buffer = line ++ 0x0a :: rest ∧ 0x0a ∉ line ∧ Options.ofDocument line = .ok o := by
  constructor
  · intro h
    rcases exists_line buffer with hopen | ⟨line, more, rfl, hline⟩
    · rw [judge_of_open hopen] at h
      split at h <;> cases h
    · rw [judge_of_line hline] at h
      split at h
      · rename_i o' hok
        obtain ⟨rfl, rfl⟩ := Verdict.agreed.inj h
        exact ⟨line, rfl, hline, hok⟩
      · cases h
  · rintro ⟨line, rfl, hline, hok⟩
    rw [judge_of_line hline, hok]

theorem judge_eq_refused :
    judge buffer = .refused e ↔
      (∃ line more, buffer = line ++ 0x0a :: more ∧ 0x0a ∉ line ∧
        Options.ofDocument line = .error e) ∨
      0x0a ∉ buffer ∧ Options.maxDocument ≤ buffer.length ∧
        e = .optionsTooLarge Options.maxDocument := by
  constructor
  · intro h
    rcases exists_line buffer with hopen | ⟨line, more, rfl, hline⟩
    · rw [judge_of_open hopen] at h
      split at h
      · rename_i hlong
        exact .inr ⟨hopen, hlong, (Verdict.refused.inj h).symm⟩
      · cases h
    · rw [judge_of_line hline] at h
      split at h
      · cases h
      · rename_i e' herror
        obtain rfl := Verdict.refused.inj h
        exact .inl ⟨line, more, rfl, hline, herror⟩
  · rintro (⟨line, more, rfl, hline, herror⟩ | ⟨hopen, hlong, rfl⟩)
    · rw [judge_of_line hline, herror]
    · rw [judge_of_open hopen, if_pos hlong]

/-! ## How the negotiation ends -/

/-- **What the end of the negotiation tells** about all bytes of the stream, those that were read
and those that were not, and about its ending. -/
inductive Settles (bytes : Bytes) (ending : Option Ending) : Outcome × Source → Prop
  /-- the first line is understood -/
  | agreed {line rest : Bytes} {o : Options} {s : Source}
      (hbytes : bytes = line ++ 0x0a :: (rest ++ s.unread)) (hline : 0x0a ∉ line)
      (hok : Options.ofDocument line = .ok o) (hending : s.ending = ending) :
      Settles bytes ending (.agreed o rest, s)
  /-- the first line is not understood -/
  | refused {line rest : Bytes} {e : WireError} {s : Source}
      (hbytes : bytes = line ++ 0x0a :: (rest ++ s.unread)) (hline : 0x0a ∉ line)
      (herror : Options.ofDocument line = .error e) (hending : s.ending = ending) :
      Settles bytes ending (.refused e, s)
  /-- no line is there among more bytes than are waited for -/
  | tooLarge {front : Bytes} {s : Source} (hbytes : bytes = front ++ s.unread)
      (hfront : 0x0a ∉ front) (hlong : Options.maxDocument ≤ front.length)
      (hending : s.ending = ending) :
      Settles bytes ending (.refused (.optionsTooLarge Options.maxDocument), s)
  /-- the stream ends before the line does -/
  | ended {e : Ending} {s : Source} (hopen : 0x0a ∉ bytes)
      (hshort : bytes.length < Options.maxDocument) (hsome : ending = some e)
      (hending : s.ending = ending) : Settles bytes ending (.refused (endError bytes e), s)
  /-- the line is not there yet -/
  | waits {s : Source} (hopen : 0x0a ∉ bytes) (hshort : bytes.length < Options.maxDocument)
      (hnone : ending = none) (hsource : s = ⟨[], none⟩) : Settles bytes ending (.waits bytes, s)

theorem settles_receive (buffer : Bytes) (s : Source) :
    Settles (buffer ++ s.unread) s.ending (receive buffer s) := by
  fun_induction receive buffer s with
  | case1 buffer s o rest hjudge =>
    obtain ⟨line, rfl, hline, hok⟩ := judge_eq_agreed.mp hjudge
    exact .agreed (by simp) hline hok rfl
  | case2 buffer s e hjudge =>
    rcases judge_eq_refused.mp hjudge with ⟨line, more, rfl, hline, herror⟩ | ⟨hopen, hlong, rfl⟩
    · have hbytes : line ++ 0x0a :: more ++ s.unread = line ++ 0x0a :: (more ++ s.unread) := by simp
      exact .refused hbytes hline herror rfl
    · exact .tooLarge rfl hopen hlong rfl
  | case3 buffer s hjudge b s' hread _ ih =>
    obtain ⟨-, -, hsplit, hending⟩ := Source.read_bytes (by decide) hread
    rwa [hending, List.append_assoc, ← hsplit] at ih
  | case4 buffer s hjudge e s' hread =>
    obtain ⟨hopen, hshort⟩ := judge_eq_more.mp hjudge
    obtain ⟨hnone, -, hending, hsome⟩ := Source.read_ended hread
    rw [hnone, List.append_nil]
    exact .ended hopen hshort hsome hending
  | case5 buffer s hjudge s' hread =>
    obtain ⟨hopen, hshort⟩ := judge_eq_more.mp hjudge
    obtain ⟨hnone, hsource, -, -⟩ := Source.readFrom_nothing (fun b hb => by cases hb) hread
    obtain ⟨-, -, -, hending⟩ := Source.read_waits hread
    rw [Source.unread, hnone, List.append_nil]
    exact .waits hopen hshort hending (hsource.trans (by rw [hending]))

/-- The negotiation never holds more than one read beyond what it waits for. -/
theorem length_taken_lt (hbuffer : buffer.length < Options.maxDocument + readSize) :
    buffer.length + s.unread.length <
      Options.maxDocument + readSize + (receive buffer s).2.unread.length := by
  fun_induction receive buffer s with
  | case1 buffer s o rest hjudge => exact Nat.add_lt_add_right hbuffer _
  | case2 buffer s e hjudge => exact Nat.add_lt_add_right hbuffer _
  | case3 buffer s hjudge b s' hread _ ih =>
    obtain ⟨-, hshort⟩ := judge_eq_more.mp hjudge
    obtain ⟨-, hle, hsplit, -⟩ := Source.read_bytes (by decide) hread
    rw [List.length_append] at ih
    rw [hsplit, List.length_append]
    have := ih (by omega)
    omega
  | case4 buffer s hjudge e s' hread =>
    obtain ⟨hnone, hnone', -, -⟩ := Source.read_ended hread
    rw [hnone, hnone']
    exact hbuffer
  | case5 buffer s hjudge s' hread =>
    obtain ⟨hnone, hnone', -, -⟩ := Source.read_waits hread
    rw [hnone, hnone']
    exact hbuffer

/-- **Where there is a line** it decides the negotiation, or it is too long. -/
theorem Settles.of_line {out : Outcome × Source} {ending : Option Ending}
    (h : Settles (line ++ 0x0a :: more) ending out) (hline : 0x0a ∉ line) :
    (∃ o rest s, out = (.agreed o rest, s) ∧ Options.ofDocument line = .ok o ∧
      rest ++ s.unread = more ∧ s.ending = ending) ∨
    (∃ e rest s, out = (.refused e, s) ∧ Options.ofDocument line = .error e ∧
      rest ++ s.unread = more) ∨
    ∃ s, out = (.refused (.optionsTooLarge Options.maxDocument), s) ∧
      Options.maxDocument ≤ line.length := by
  have hmem : 0x0a ∈ line ++ 0x0a :: more := by simp
  cases h with
  | agreed hbytes hline' hok hending =>
    obtain ⟨rfl, rfl⟩ := line_unique hbytes hline hline'
    exact .inl ⟨_, _, _, rfl, hok, rfl, hending⟩
  | refused hbytes hline' herror =>
    obtain ⟨rfl, rfl⟩ := line_unique hbytes hline hline'
    exact .inr (.inl ⟨_, _, _, rfl, herror, rfl⟩)
  | tooLarge hbytes hfront hlong =>
    exact .inr (.inr ⟨_, rfl, Nat.le_trans hlong (length_le_of_line hbytes.symm hfront)⟩)
  | ended hopen => exact absurd hmem hopen
  | waits hopen => exact absurd hmem hopen

/-- **A line that is short enough decides** the negotiation, in whichever pieces it arrives. -/
theorem receive_of_line (hline : 0x0a ∉ line) (hshort : line.length < Options.maxDocument)
    (hbytes : buffer ++ s.unread = line ++ 0x0a :: more) :
    (∃ o rest s', receive buffer s = (.agreed o rest, s') ∧ Options.ofDocument line = .ok o ∧
      rest ++ s'.unread = more ∧ s'.ending = s.ending) ∨
    ∃ e s', receive buffer s = (.refused e, s') ∧ Options.ofDocument line = .error e := by
  have hsettles := settles_receive buffer s
  rw [hbytes] at hsettles
  rcases hsettles.of_line hline with hagreed | ⟨e, -, s', hrefused, herror, -⟩ | ⟨-, -, hlong⟩
  · exact .inl hagreed
  · exact .inr ⟨e, s', hrefused, herror⟩
  · omega

/-! ## Going on -/

/-- What follows from one read where the line is not there yet. -/
theorem receive_of_more (hjudge : judge buffer = .more) :
    receive buffer s =
      match s.read readSize with
      | (.bytes b, s') => receive (buffer ++ b) s'
      | (.ended e, s') => (.refused (endError buffer e), s')
      | (.waits, s') => (.waits buffer, s') := by
  rw [receive]
  simp only [hjudge]
  split <;> simp only [*]

/-- The negotiation goes on where it has stopped to wait, after a change of what arrives. -/
def resume (f : Source → Source) : Outcome × Source → Outcome × Source
  | (.waits buffer, s) => receive buffer (f s)
  | (.agreed o rest, s) => (.agreed o rest, f s)
  | (.refused e, s) => (.refused e, f s)

/-- **The negotiation goes on** with what comes behind as if it had not stopped. -/
theorem receive_extend (buffer : Bytes) (s : Source) (more : List Bytes)
    (ending : Option Ending) :
    receive buffer (s.extend more ending) = resume (·.extend more ending) (receive buffer s) := by
  fun_induction receive buffer s with
  | case1 buffer s o rest hjudge =>
    rw [receive, hjudge]
    rfl
  | case2 buffer s e hjudge =>
    rw [receive, hjudge]
    rfl
  | case3 buffer s hjudge b s' hread _ ih =>
    rw [receive_of_more hjudge, Source.read_extend (by decide) hread]
    exact ih
  | case4 buffer s hjudge e s' hread =>
    obtain ⟨-, -, hending, hsome⟩ := Source.read_ended hread
    rw [Source.extend_of_some hsome, receive_of_more hjudge, hread, resume,
      Source.extend_of_some (hending.trans hsome)]
  | case5 buffer s hjudge s' hread =>
    rw [resume, receive_of_more hjudge, receive_of_more hjudge, Source.read_extend_waits hread]

theorem receive_arrive (buffer : Bytes) (s : Source) (p : Bytes) :
    receive buffer (s.arrive p) = resume (·.arrive p) (receive buffer s) := by
  simp only [Source.arrive_eq_extend, receive_extend]

theorem receive_finish (buffer : Bytes) (s : Source) (e : Ending) :
    receive buffer (s.finish e) = resume (·.finish e) (receive buffer s) := by
  simp only [Source.finish_eq_extend, receive_extend]

/-- Where the negotiation has stopped to wait, it waits. -/
theorem receive_of_waits {b : Bytes} (h : receive buffer s = (.waits b, s')) :
    receive b s' = (.waits b, s') := by
  have hsettles := settles_receive buffer s
  rw [h] at hsettles
  cases hsettles with
  | waits hopen hshort hnone hsource =>
    rw [receive_of_more (judge_eq_more.mpr ⟨hopen, hshort⟩), hsource]
    rfl

end Negotiation

end WireCall
