import WireCall.Proofs.Message.Stream
import WireCall.Proofs.Negotiation.Pieces
import WireCall.Proofs.Options

/-!
# From the options to the messages

The server reads the options and the messages behind them from one stream, with two readers that
ask for different numbers of bytes. No byte is lost between them, and none is read twice: what the
negotiation has read beyond the line goes to the reader of the messages, which then reads as if it
had the messages alone (`Negotiation.handed_over`).
-/

namespace WireCall

namespace Reader

variable {ms : List (Header × Bytes)} {r r' : Reader}

/-- Two readers read the same messages, each with its body, and then the same becomes of them. -/
def ReadAlike (ms : List (Header × Bytes)) (r r' : Reader) : Prop :=
  ∃ last last', r.Reads ms last ∧ r'.Reads ms last' ∧ last.readHeader.1 = last'.readHeader.1

/-- What has been written is read by a reader however its bytes are divided. -/
theorem exists_reads (hfits : ∀ m ∈ ms, Message.Fits r.codec m)
    (hbytes : r.bytes = ms.flatMap (Message.bytes r.codec)) :
    ∃ last, r.Reads ms last ∧ last.readHeader.1 =
      match r.source.ending with
      | some e => .failed (Negotiation.endError [] e)
      | none => .waits := by
  have hsplits := Message.splits_bytes hfits []
  rw [List.append_nil] at hsplits
  obtain ⟨last, hreads, -, hleft, hending⟩ := reads_of_splits hsplits r rfl hbytes
  have hlast : last.readHeader.1 = _ := readHeader_of_no_frame (by rw [hleft]; rfl)
  rw [hending, hleft] at hlast
  exact ⟨last, hreads, hlast⟩

theorem readAlike_of_bytes (hcodec : r'.codec = r.codec)
    (hending : r'.source.ending = r.source.ending) (hfits : ∀ m ∈ ms, Message.Fits r.codec m)
    (hbytes : r.bytes = ms.flatMap (Message.bytes r.codec))
    (hbytes' : r'.bytes = ms.flatMap (Message.bytes r.codec)) : ReadAlike ms r r' := by
  rw [← hcodec] at hbytes'
  obtain ⟨last, hreads, hlast⟩ := exists_reads hfits hbytes
  obtain ⟨last', hreads', hlast'⟩ := exists_reads (hcodec ▸ hfits) hbytes'
  rw [hending] at hlast'
  exact ⟨last, last', hreads, hreads', hlast.trans hlast'.symm⟩

end Reader

namespace Negotiation

variable {o : Options} {more : Bytes} {s : Source}

/-- The line of some options decides the negotiation by its magic number. -/
theorem receive_text (hbytes : s.unread = o.text ++ 0x0a :: more) :
    (o.magic = Options.magicNumber → ∃ rest s', receive [] s = (.agreed o rest, s') ∧
      rest ++ s'.unread = more ∧ s'.ending = s.ending) ∧
    (o.magic ≠ Options.magicNumber → (receive [] s).1 =
      .refused (.invalidMagicNumber o.magic.toNat Options.magicNumber.toNat)) := by
  have hwhole : [] ++ s.unread = o.text ++ 0x0a :: more := hbytes
  have hdecides := receive_of_line o.lineEnd_notMem_text o.length_text hwhole
  rw [o.ofDocument_text] at hdecides
  constructor
  · intro hmagic
    rw [if_pos hmagic] at hdecides
    rcases hdecides with ⟨o', rest, s', hreceive, hok, hrest⟩ | ⟨e, -, -, herror⟩
    · obtain rfl := Except.ok.inj hok
      exact ⟨rest, s', hreceive, hrest⟩
    · cases herror
  · intro hmagic
    rw [if_neg hmagic] at hdecides
    rcases hdecides with ⟨o', -, -, -, hok, -⟩ | ⟨e, s', hreceive, herror⟩
    · cases hok
    · rw [hreceive, Except.error.inj herror]

/-- **Nothing is lost between the options and the messages.** Options with the magic number of the
protocol are sent as one line with some messages behind it, in their codec. In whichever pieces the
bytes arrive and however the stream ends, the options are read, and what was read beyond the line
is, with what was not read yet, the frames of the messages; so a reader that starts with it reads
the messages just as one that is given the frames alone. With another magic number the same line is
refused, whatever stands behind it. And whatever a stream consists of: if options are read from it,
they are those of the bytes before the first end of a line, and the bytes behind it are what was
read beyond it and what was not read yet. -/
theorem handed_over :
    (∀ o : Options, ∃ line, o.toLine = .ok line ∧
      (o.magic = Options.magicNumber →
        ∀ ms : List (Header × Bytes), (∀ m ∈ ms, Message.Fits o.codec m) →
        ∀ frames, frames = ms.flatMap (Message.bytes o.codec) →
        ∀ (pieces : List Bytes) (ending : Option Ending), pieces.flatten = line ++ frames →
        ∃ rest s, receive [] ⟨pieces, ending⟩ = (.agreed o rest, s) ∧ rest ++ s.unread = frames ∧
          ∀ pieces' : List Bytes, pieces'.flatten = frames →
            Reader.ReadAlike ms (.make o.codec rest s) (.make o.codec [] ⟨pieces', ending⟩)) ∧
      (o.magic ≠ Options.magicNumber →
        ∀ (pieces : List Bytes) (ending : Option Ending), line <+: pieces.flatten →
        (receive [] ⟨pieces, ending⟩).1 =
          .refused (.invalidMagicNumber o.magic.toNat Options.magicNumber.toNat))) ∧
    ∀ (pieces : List Bytes) (ending : Option Ending) (o : Options) (rest : Bytes) (s : Source),
      receive [] ⟨pieces, ending⟩ = (.agreed o rest, s) →
      ∃ line, pieces.flatten = line ++ 0x0a :: (rest ++ s.unread) ∧ 0x0a ∉ line ∧
        Options.ofDocument line = .ok o := by
  constructor
  · intro o
    refine ⟨o.text ++ [0x0a], o.toLine_eq, ?_, ?_⟩
    · intro hmagic ms hfits frames hframes pieces ending hpieces
      have hbytes : (⟨pieces, ending⟩ : Source).unread = o.text ++ 0x0a :: frames := by
        rw [Source.unread, hpieces, List.append_assoc]
        rfl
      obtain ⟨rest, s, hreceive, hrest, hending⟩ := (receive_text hbytes).1 hmagic
      refine ⟨rest, s, hreceive, hrest, ?_⟩
      intro pieces' hpieces'
      exact Reader.readAlike_of_bytes rfl hending.symm hfits (hrest.trans hframes)
        (hpieces'.trans hframes)
    · rintro hmagic pieces ending ⟨more, hpieces⟩
      have hbytes : (⟨pieces, ending⟩ : Source).unread = o.text ++ 0x0a :: more := by
        rw [Source.unread, ← hpieces, List.append_assoc]
        rfl
      exact (receive_text hbytes).2 hmagic
  · intro pieces ending o rest s hreceive
    have hsettles := settles_receive [] ⟨pieces, ending⟩
    rw [hreceive] at hsettles
    cases hsettles with
    | agreed hbytes hline hok => exact ⟨_, hbytes, hline, hok⟩

/-- Two messages behind the line of options, in three pieces: the first ends inside the line, the
second inside the first message. With another magic number the line is refused; and whatever is read
from the three pieces, the line is their front. -/
theorem handed_over_in_pieces :
    ∃ line frames rest s,
      Options.toLine (.forCodec .json) = .ok line ∧
      frames = [(⟨"Foo.Sum", 1, ""⟩, [0x37]), (⟨"Foo.Sum", 2, "why"⟩, [])].flatMap
        (Message.bytes .json) ∧
      receive [] ⟨[line.take 20, line.drop 20 ++ frames.take 10, frames.drop 10], some .finished⟩ =
        (.agreed (.forCodec .json) rest, s) ∧
      rest ++ s.unread = frames ∧
      Reader.ReadAlike [(⟨"Foo.Sum", 1, ""⟩, [0x37]), (⟨"Foo.Sum", 2, "why"⟩, [])]
        (.make .json rest s) (.make .json [] ⟨[frames], some .finished⟩) ∧
      (∃ line', Options.toLine ⟨7, .json⟩ = .ok line' ∧
        (receive [] ⟨[line', frames], none⟩).1 = .refused (.invalidMagicNumber 7 3927900)) ∧
      ∃ line', line ++ frames = line' ++ 0x0a :: (rest ++ s.unread) ∧ 0x0a ∉ line' ∧
        Options.ofDocument line' = .ok (.forCodec .json) := by
  obtain ⟨hall, hany⟩ := handed_over
  obtain ⟨line, hline, hagreed, -⟩ := hall (.forCodec .json)
  obtain ⟨line', hline', -, hrefused⟩ := hall ⟨7, .json⟩
  have hfits : ∀ m ∈ [(⟨"Foo.Sum", 1, ""⟩, [0x37]), (⟨"Foo.Sum", 2, "why"⟩, [])],
      Message.Fits .json m := by
    decide +kernel
  generalize hframes : [(⟨"Foo.Sum", 1, ""⟩, [0x37]), (⟨"Foo.Sum", 2, "why"⟩, [])].flatMap
    (Message.bytes .json) = frames
  have hpieces : [line.take 20, line.drop 20 ++ frames.take 10, frames.drop 10].flatten =
      line ++ frames := by
    simp only [List.flatten_cons, List.flatten_nil, List.append_nil, List.append_assoc]
    rw [List.take_append_drop, ← List.append_assoc, List.take_append_drop]
  obtain ⟨rest, s, hreceive, hrest, halike⟩ := hagreed rfl _ hfits frames hframes.symm _
    (some .finished) hpieces
  have hbad := hrefused (by decide) [line', frames] none ⟨frames, by simp⟩
  obtain ⟨line'', hsplit, hopen, hok⟩ := hany _ _ _ _ _ hreceive
  rw [hpieces] at hsplit
  exact ⟨line, frames, rest, s, hline, rfl, hreceive, hrest, halike [frames] (by simp),
    ⟨line', hline', hbad⟩, line'', hsplit, hopen, hok⟩

end Negotiation

end WireCall
