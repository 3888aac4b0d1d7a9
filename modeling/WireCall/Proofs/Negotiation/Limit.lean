import WireCall.Proofs.Negotiation
import WireCall.Proofs.Negotiation.Pieces

/-!
# The limit on the line of options

The negotiation gives up on a line that is too long, but it looks at the number of bytes only after
a read. A line that ends within `Options.maxDocument` bytes is judged, and one that is longer than
that by a whole read is given up on, in whichever pieces they arrive. In between the pieces decide
(`Negotiation.answer_unique_iff`): the same line is judged where one read crosses the limit and the
end of the line, and given up on where a read ends between them
(`Negotiation.limit_depends_on_pieces`).
-/

namespace WireCall

/-- That there are no options in a document is not a matter of its length. -/
theorem Options.ofDocument_ne_tooLarge {b : Bytes} {e : WireError} (h : ofDocument b = .error e)
    (n : Nat) : e ≠ .optionsTooLarge n := by
  rintro rfl
  rcases ofDocument_eq_error h with hdecode | ⟨magic, hmagic⟩ | ⟨name, hname⟩
  · obtain ⟨e, -, he⟩ := exists_of_mapError hdecode
    cases he
  · cases hmagic
  · cases hname

/-- A read gives the front of the first piece, and leaves the rest of it. -/
theorem Source.read_piece {max : Nat} {piece : Bytes} (hne : piece ≠ []) (pieces : List Bytes)
    (ending : Option Ending) :
    read max ⟨piece :: pieces, ending⟩ = (.bytes (piece.take max),
      ⟨if piece.drop max = [] then pieces else piece.drop max :: pieces, ending⟩) := by
  cases piece with
  | nil => exact absurd rfl hne
  | cons c rest =>
    simp only [read, readFrom, List.splitAt_eq]
    split
    · rename_i heq
      obtain ⟨rfl, hback⟩ := Prod.mk.inj heq
      rw [if_pos hback]
    · rename_i hback heq
      obtain ⟨rfl, rfl⟩ := Prod.mk.inj heq
      rw [if_neg hback]

namespace Negotiation

variable {buffer line more b piece : Bytes} {pieces : List Bytes} {ending : Option Ending}

/-- What the negotiation has come to: the options and the bytes behind their line, or an error. It
has come to nothing as long as it waits. -/
def answer : Outcome × Source → Option (Except WireError (Options × Bytes))
  | (.waits _, _) => none
  | (.agreed o rest, s) => some (.ok (o, rest ++ s.unread))
  | (.refused e, _) => some (.error e)

/-- What the negotiation comes to if the stream consists of the given pieces. -/
def answerTo (pieces : List Bytes) (ending : Option Ending) :
    Option (Except WireError (Options × Bytes)) :=
  answer (receive [] ⟨pieces, ending⟩)

/-- The answer to a line that is judged. -/
def judged (line more : Bytes) : Option (Except WireError (Options × Bytes)) :=
  some ((Options.ofDocument line).map fun o => (o, more))

/-- The answer to a line that is given up on. -/
def tooLarge : Option (Except WireError (Options × Bytes)) :=
  some (.error (.optionsTooLarge Options.maxDocument))

theorem judged_ne_tooLarge (line more : Bytes) : judged line more ≠ tooLarge := by
  intro h
  cases hjudge : Options.ofDocument line with
  | ok o =>
    rw [judged, hjudge] at h
    cases h
  | error e =>
    rw [judged, hjudge] at h
    exact Options.ofDocument_ne_tooLarge hjudge _ (Except.error.inj (Option.some.inj h))

/-- Some bytes arrive in the given pieces, none of which is empty. -/
def Divides (pieces : List Bytes) (b : Bytes) : Prop := pieces.flatten = b ∧ [] ∉ pieces

theorem divides_one (hne : b ≠ []) : Divides [b] b :=
  ⟨List.append_nil b, fun h => hne (List.mem_singleton.mp h).symm⟩

theorem divides_cons {front : Bytes} (hne : front ≠ []) (h : Divides pieces b) :
    Divides (front :: pieces) (front ++ b) := by
  refine ⟨congrArg (front ++ ·) h.1, ?_⟩
  rintro (_ | ⟨_, hmem⟩)
  · exact hne rfl
  · exact h.2 hmem

/-! ## What does not depend on the pieces -/

/-- A line has one of two answers, and its length may decide between them. -/
theorem answerTo_of_line (hline : 0x0a ∉ line) (hdivides : Divides pieces (line ++ 0x0a :: more)) :
    answerTo pieces ending = judged line more ∧
      line.length + 1 < Options.maxDocument + readSize ∨
    answerTo pieces ending = tooLarge ∧ Options.maxDocument ≤ line.length := by
  have hsettles := settles_receive [] ⟨pieces, ending⟩
  have hbytes : [] ++ (⟨pieces, ending⟩ : Source).unread = line ++ 0x0a :: more := hdivides.1
  have hnothing : ([] : Bytes).length < Options.maxDocument + readSize := by decide
  have hlength := length_taken_lt (s := ⟨pieces, ending⟩) hnothing
  rw [← List.length_append, hbytes, List.length_append, List.length_cons] at hlength
  rw [hbytes] at hsettles
  rw [answerTo, judged]
  rcases hsettles.of_line hline with ⟨o, rest, s, hreceive, hok, hrest, -⟩ |
    ⟨e, rest, s, hreceive, herror, hrest⟩ | ⟨s, hreceive, hlong⟩
  · simp only [hreceive, ← hrest, List.length_append] at hlength
    rw [hreceive, hok, ← hrest]
    exact .inl ⟨rfl, by omega⟩
  · simp only [hreceive, ← hrest, List.length_append] at hlength
    rw [hreceive, herror]
    exact .inl ⟨rfl, by omega⟩
  · rw [hreceive]
    exact .inr ⟨rfl, hlong⟩

theorem answerTo_of_short (hline : 0x0a ∉ line) (hshort : line.length + 1 ≤ Options.maxDocument)
    (hdivides : Divides pieces (line ++ 0x0a :: more)) :
    answerTo pieces ending = judged line more := by
  rcases answerTo_of_line hline hdivides with ⟨hjudged, -⟩ | ⟨-, hlong⟩
  · exact hjudged
  · omega

theorem answerTo_of_long (hline : 0x0a ∉ line)
    (hlong : Options.maxDocument + readSize ≤ line.length + 1)
    (hdivides : Divides pieces (line ++ 0x0a :: more)) : answerTo pieces ending = tooLarge := by
  rcases answerTo_of_line hline hdivides with ⟨-, hshort⟩ | ⟨htooLarge, -⟩
  · omega
  · exact htooLarge

/-- Without a line only the number of bytes counts, and how the stream ends. -/
theorem answerTo_of_open (hopen : 0x0a ∉ b) (hdivides : Divides pieces b) :
    answerTo pieces ending =
      if Options.maxDocument ≤ b.length then tooLarge
      else ending.map fun e => .error (endError b e) := by
  have hsettles := settles_receive [] ⟨pieces, ending⟩
  have hbytes : [] ++ (⟨pieces, ending⟩ : Source).unread = b := hdivides.1
  rw [answerTo]
  rw [hbytes] at hsettles
  generalize receive [] ⟨pieces, ending⟩ = result at hsettles
  cases hsettles with
  | agreed hsplit => exact absurd (by rw [hsplit]; simp) hopen
  | refused hsplit => exact absurd (by rw [hsplit]; simp) hopen
  | tooLarge hsplit _ hlong =>
    rw [if_pos]
    · rfl
    · rw [hsplit, List.length_append]
      omega
  | ended _ hshort hsome =>
    obtain rfl : ending = some _ := hsome
    rw [if_neg (Nat.not_le_of_lt hshort)]
    rfl
  | waits _ hshort hnone =>
    obtain rfl : ending = none := hnone
    rw [if_neg (Nat.not_le_of_lt hshort)]
    rfl

/-! ## What depends on them -/

/-- One read takes what it can from the first piece. -/
theorem receive_read (hjudge : judge buffer = .more) (hne : piece ≠ []) :
    receive buffer ⟨piece :: pieces, ending⟩ = receive (buffer ++ piece.take readSize)
      ⟨if piece.drop readSize = [] then pieces else piece.drop readSize :: pieces, ending⟩ := by
  rw [receive_of_more hjudge, Source.read_piece hne]

/-- A piece that does not reach the limit is read to its end. -/
theorem receive_piece (hopen : 0x0a ∉ buffer ++ piece)
    (hshort : (buffer ++ piece).length < Options.maxDocument) :
    receive buffer ⟨piece :: pieces, ending⟩ = receive (buffer ++ piece) ⟨pieces, ending⟩ := by
  induction hn : piece.length using Nat.strong_induction_on generalizing buffer piece with
  | _ n ih =>
  have hjudge : judge buffer = .more := by
    rw [List.length_append] at hshort
    exact judge_eq_more.mpr ⟨fun h => hopen (List.mem_append_left _ h), by omega⟩
  by_cases hne : piece = []
  · subst hne
    have hjudge' : judge (buffer ++ []) = .more := judge_eq_more.mpr ⟨hopen, hshort⟩
    rw [receive_of_more hjudge, receive_of_more hjudge', List.append_nil]
    rfl
  · rw [receive_read hjudge hne]
    split
    · rename_i hback
      rw [List.take_of_length_le (List.drop_eq_nil_iff.mp hback)]
    · have hlength : (piece.drop readSize).length < n := by
        have := List.length_pos_iff.mpr hne
        rw [List.length_drop, hn, readSize]
        omega
      have hsame : buffer ++ piece.take readSize ++ piece.drop readSize = buffer ++ piece := by
        rw [List.append_assoc, List.take_append_drop]
      rw [← hsame] at hopen hshort
      rw [ih _ hlength hopen hshort rfl, hsame]

/-- A line of which the end is read is judged. -/
theorem answer_of_line (hline : 0x0a ∉ line) (more : Bytes) (s : Source) :
    answer (receive (line ++ 0x0a :: more) s) = judged line (more ++ s.unread) := by
  have hjudge := judge_of_line hline more
  cases hok : Options.ofDocument line with
  | ok o =>
    rw [hok] at hjudge
    rw [receive, hjudge, judged, hok]
    rfl
  | error e =>
    rw [hok] at hjudge
    rw [receive, hjudge, judged, hok]
    rfl

/-- A line that is cut one byte before the limit, in two pieces and in three. -/
theorem divides_cut {front : Bytes} (hfront : front.length + 1 = Options.maxDocument) (x : UInt8)
    (back more : Bytes) :
    Divides [front, x :: back ++ 0x0a :: more] (front ++ x :: back ++ 0x0a :: more) ∧
      Divides [front, [x], back ++ 0x0a :: more] (front ++ x :: back ++ 0x0a :: more) := by
  have hne : front ≠ [] := by
    rintro rfl
    cases hfront
  rw [List.append_assoc]
  exact ⟨divides_cons hne (divides_one (by simp)),
    divides_cons hne (divides_cons (List.cons_ne_nil x []) (divides_one (by simp)))⟩

/-- **Two answers to one line** that is cut one byte before the limit and ends soon behind it: it is
judged if the next read takes all of it, and given up on if the next read takes only one byte. -/
theorem answers_of_cut {front back : Bytes} {x : UInt8} (hline : 0x0a ∉ front ++ x :: back)
    (hfront : front.length + 1 = Options.maxDocument) (hback : back.length + 1 < readSize)
    (more : Bytes) (ending : Option Ending) :
    answerTo [front, x :: back ++ 0x0a :: more] ending = judged (front ++ x :: back) more ∧
      answerTo [front, [x], back ++ 0x0a :: more] ending = tooLarge := by
  have hopen : 0x0a ∉ front := fun h => hline (List.mem_append_left _ h)
  have hjudge : judge front = .more := judge_eq_more.mpr ⟨hopen, by omega⟩
  have hpiece (pieces : List Bytes) :
      receive [] ⟨front :: pieces, ending⟩ = receive ([] ++ front) ⟨pieces, ending⟩ :=
    receive_piece hopen (by rw [List.nil_append]; omega)
  simp only [List.nil_append] at hpiece
  constructor
  · obtain ⟨n, hn⟩ : ∃ n, readSize - (x :: back).length = n + 1 := by
      refine ⟨readSize - (x :: back).length - 1, ?_⟩
      rw [List.length_cons]
      omega
    have htake : (x :: back ++ 0x0a :: more).take readSize = x :: back ++ 0x0a :: more.take n := by
      rw [List.take_append, List.take_of_length_le (by omega), hn, List.take_succ_cons]
    have hanswer : ∃ more', answerTo [front, x :: back ++ 0x0a :: more] ending =
        judged (front ++ x :: back) more' := by
      rw [answerTo, hpiece, receive_read hjudge (by simp), htake, ← List.append_assoc,
        answer_of_line hline]
      exact ⟨_, rfl⟩
    obtain ⟨more', hanswer⟩ := hanswer
    -- it is judged, and only one of the two answers is a judgement
    rcases answerTo_of_line hline (divides_cut hfront x back more).1 with
      ⟨hjudged, -⟩ | ⟨htooLarge, -⟩
    · exact hjudged
    · exact absurd (hanswer.symm.trans htooLarge) (judged_ne_tooLarge _ _)
  · have hopen' : 0x0a ∉ front ++ [x] := by
      intro h
      refine hline ?_
      rw [List.append_cons]
      exact List.mem_append_left _ h
    have hrefused : judge (front ++ [x]) = .refused (.optionsTooLarge Options.maxDocument) :=
      judge_eq_refused.mpr (.inr ⟨hopen', by simp [hfront], rfl⟩)
    have htake : [x].take readSize = [x] := rfl
    rw [answerTo, hpiece, receive_read hjudge (by simp), htake, receive, hrefused]
    rfl

/-- **A line that ends just beyond the limit has two answers.** -/
theorem exists_two_answers (hline : 0x0a ∉ line) (hlong : Options.maxDocument ≤ line.length)
    (hshort : line.length + 1 < Options.maxDocument + readSize) (more : Bytes)
    (ending : Option Ending) :
    (∃ pieces, Divides pieces (line ++ 0x0a :: more) ∧
      answerTo pieces ending = judged line more) ∧
    ∃ pieces, Divides pieces (line ++ 0x0a :: more) ∧ answerTo pieces ending = tooLarge := by
  obtain ⟨front, x, back, rfl, hfront⟩ :
      ∃ front x back, line = front ++ x :: back ∧ front.length + 1 = Options.maxDocument := by
    have hlt : Options.maxDocument - 1 < line.length := Nat.lt_of_lt_of_le (by decide) hlong
    have hne : line.drop (Options.maxDocument - 1) ≠ [] := by
      rw [Ne, List.drop_eq_nil_iff]
      exact Nat.not_le_of_lt hlt
    obtain ⟨x, back, hback⟩ := List.exists_cons_of_ne_nil hne
    refine ⟨line.take (Options.maxDocument - 1), x, back, ?_, ?_⟩
    · rw [← hback, List.take_append_drop]
    · rw [List.length_take_of_le (Nat.le_of_lt hlt)]
      decide
  have hback : back.length + 1 < readSize := by
    rw [List.length_append, List.length_cons] at hshort
    omega
  obtain ⟨hjudged, htooLarge⟩ := answers_of_cut hline hfront hback more ending
  obtain ⟨htwo, hthree⟩ := divides_cut hfront x back more
  exact ⟨⟨_, htwo, hjudged⟩, ⟨_, hthree, htooLarge⟩⟩

/-- **Which streams have one answer.** However a stream ends, the negotiation comes to the same in
whichever pieces it arrives, if and only if its first line, if there is one, ends within the limit
or beyond it by a whole read. A line that ends within the limit is judged in all pieces; a line that
ends beyond it by a whole read is given up on in all pieces, and so is a stream that reaches the
limit and has no line. For a line that ends in between there are pieces in which it is judged, and
pieces in which it is given up on. -/
theorem answer_unique_iff (b : Bytes) (ending : Option Ending) :
    ((∀ pieces pieces', Divides pieces b → Divides pieces' b →
        answerTo pieces ending = answerTo pieces' ending) ↔
      ∀ line more, b = line ++ 0x0a :: more → 0x0a ∉ line →
        line.length + 1 ≤ Options.maxDocument ∨
          Options.maxDocument + readSize ≤ line.length + 1) ∧
    (∀ line more, b = line ++ 0x0a :: more → 0x0a ∉ line →
      (line.length + 1 ≤ Options.maxDocument →
        ∀ pieces, Divides pieces b → answerTo pieces ending = judged line more) ∧
      (Options.maxDocument + readSize ≤ line.length + 1 →
        ∀ pieces, Divides pieces b → answerTo pieces ending = tooLarge) ∧
      (Options.maxDocument ≤ line.length → line.length + 1 < Options.maxDocument + readSize →
        (∃ pieces, Divides pieces b ∧ answerTo pieces ending = judged line more) ∧
          ∃ pieces, Divides pieces b ∧ answerTo pieces ending = tooLarge)) ∧
    (0x0a ∉ b → Options.maxDocument ≤ b.length →
      ∀ pieces, Divides pieces b → answerTo pieces ending = tooLarge) := by
  refine ⟨⟨?_, ?_⟩, ?_, ?_⟩
  · rintro hall line more rfl hline
    by_contra hbetween
    obtain ⟨⟨pieces, hdivides, hjudged⟩, pieces', hdivides', htooLarge⟩ :=
      exists_two_answers hline (by omega) (by omega) more ending
    have hsame := hall pieces pieces' hdivides hdivides'
    rw [hjudged, htooLarge] at hsame
    exact judged_ne_tooLarge line more hsame
  · intro hlength pieces pieces' hdivides hdivides'
    rcases exists_line b with hopen | ⟨line, more, rfl, hline⟩
    · rw [answerTo_of_open hopen hdivides, answerTo_of_open hopen hdivides']
    · rcases hlength line more rfl hline with hshort | hlong
      · rw [answerTo_of_short hline hshort hdivides, answerTo_of_short hline hshort hdivides']
      · rw [answerTo_of_long hline hlong hdivides, answerTo_of_long hline hlong hdivides']
  · rintro line more rfl hline
    refine ⟨?_, ?_, ?_⟩
    · intro hshort pieces hdivides
      exact answerTo_of_short hline hshort hdivides
    · intro hlong pieces hdivides
      exact answerTo_of_long hline hlong hdivides
    · intro hlong hshort
      exact exists_two_answers hline hlong hshort more ending
  · intro hopen hlong pieces hdivides
    rw [answerTo_of_open hopen hdivides, if_pos hlong]

/-- The line of some options is judged, and has the same answer in two pieces as in one; blanks that
reach the limit are given up on. -/
theorem answer_unique_iff_blanks :
    answerTo [Options.line .json, [0x0a]] none = judged (Options.line .json) [] ∧
      answerTo [Options.line .json ++ [0x0a]] none = answerTo [Options.line .json, [0x0a]] none ∧
      answerTo [List.replicate 4096 0x20] none = tooLarge := by
  have hline := Options.lineEnd_notMem .json
  have hshort := Options.length_line .json
  have hone : Divides [Options.line .json ++ [0x0a]] (Options.line .json ++ [0x0a]) :=
    divides_one (by simp)
  have htwo : Divides [Options.line .json, [0x0a]] (Options.line .json ++ [0x0a]) :=
    divides_cons (by decide +kernel) (divides_one (by simp))
  have hblanks : Divides [List.replicate 4096 0x20] (List.replicate 4096 0x20) :=
    divides_one (List.cons_ne_nil _ _)
  obtain ⟨⟨-, hunique⟩, hjudged, -⟩ := answer_unique_iff (Options.line .json ++ [0x0a]) none
  obtain ⟨-, -, hopen⟩ := answer_unique_iff (List.replicate 4096 0x20) none
  refine ⟨(hjudged _ [] rfl hline).1 hshort _ htwo, hunique ?_ _ _ hone htwo, ?_⟩
  · intro line more hsplit hline'
    obtain ⟨rfl, -⟩ := line_unique hsplit hline hline'
    exact .inl hshort
  · refine hopen ?_ ?_ _ hblanks
    · exact fun h => absurd (List.eq_of_mem_replicate h) (by decide)
    · exact Nat.le_of_eq List.length_replicate.symm

/-- **The limit depends on the pieces.** Behind 4095 blanks the line of some options has no end
among the first 4096 bytes. In two pieces it is read as these options, and in three it is given up
on. -/
theorem limit_depends_on_pieces :
    ∃ back stream, Options.line .compact = 0x7b :: back ∧
      stream = List.replicate 4095 0x20 ++ 0x7b :: back ++ [0x0a] ∧
      0x0a ∉ stream.take Options.maxDocument ∧
      Divides [List.replicate 4095 0x20, 0x7b :: back ++ [0x0a]] stream ∧
      answerTo [List.replicate 4095 0x20, 0x7b :: back ++ [0x0a]] (some .finished) =
        some (.ok (.forCodec .compact, [])) ∧
      Divides [List.replicate 4095 0x20, [0x7b], back ++ [0x0a]] stream ∧
      answerTo [List.replicate 4095 0x20, [0x7b], back ++ [0x0a]] (some .finished) = tooLarge := by
  have hfirst : Options.line .compact = 0x7b :: (Options.line .compact).tail := by
    decide +kernel
  have hfront : (List.replicate 4095 (0x20 : UInt8)).length + 1 = Options.maxDocument :=
    congrArg (· + 1) List.length_replicate
  have hline : 0x0a ∉ List.replicate 4095 0x20 ++ 0x7b :: (Options.line .compact).tail := by
    decide +kernel
  have hread : (Options.ofDocument
      (List.replicate 4095 0x20 ++ 0x7b :: (Options.line .compact).tail)).toOption =
        some (.forCodec .compact) := by
    decide +kernel
  obtain ⟨hjudged, htooLarge⟩ := answers_of_cut hline hfront (by decide +kernel) []
    (some .finished)
  obtain ⟨htwo, hthree⟩ := divides_cut hfront 0x7b (Options.line .compact).tail []
  refine ⟨_, _, hfirst, rfl, ?_, htwo, ?_, hthree, htooLarge⟩
  · decide +kernel
  · rw [hjudged, judged]
    cases hok : Options.ofDocument
        (List.replicate 4095 0x20 ++ 0x7b :: (Options.line .compact).tail) with
    | error e =>
      rw [hok] at hread
      cases hread
    | ok o =>
      rw [hok] at hread
      obtain rfl := Option.some.inj hread
      rfl

end Negotiation

end WireCall
