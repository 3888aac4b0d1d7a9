import WireCall.Proofs.Negotiation.Pieces
import WireCall.Proofs.Options

/-!
# The line that opens a connection

A client that asks for a codec sends one line (`Options.line`), which the server understands
(`Options.ofDocument_line`). The bytes of the line and of the messages behind it may reach the
server in any pieces: it waits until it has seen the end of the line, and then it agrees on the
codec and keeps what stands behind the line (`Negotiation.receive_line`).
-/

namespace WireCall

namespace Options

/-- The line that asks for a codec, without its end. -/
def line (c : Codec) : Bytes :=
  match (forCodec c).document with
  | .ok b => b
  | .error _ => []

theorem line_eq_text (c : Codec) : line c = (forCodec c).text := rfl

theorem toLine_forCodec (c : Codec) : (forCodec c).toLine = .ok (line c ++ [0x0a]) := by
  rw [line_eq_text, toLine_eq]

theorem ofDocument_line (c : Codec) : ofDocument (line c) = .ok (forCodec c) := by
  rw [line_eq_text, ofDocument_text]
  exact if_pos rfl

theorem lineEnd_notMem (c : Codec) : 0x0a ∉ line c := by
  rw [line_eq_text]
  exact lineEnd_notMem_text _

theorem length_line (c : Codec) : (line c).length < maxDocument := by
  rw [line_eq_text]
  exact length_text _

end Options

namespace Negotiation

variable {codec : Codec} {buffer : Bytes} {s : Source}

/-- **The server agrees** on the codec that the line asks for, or waits for more of the line. -/
inductive Receives (codec : Codec) (bytes : Bytes) : Outcome × Source → Prop
  | waits {buffer : Bytes} {s : Source} (hbytes : buffer ++ s.unread = bytes)
      (hending : s.ending = none) : Receives codec bytes (.waits buffer, s)
  | agreed {rest : Bytes} {s : Source}
      (hbytes : Options.line codec ++ 0x0a :: (rest ++ s.unread) = bytes)
      (hending : s.ending = none) : Receives codec bytes (.agreed (.forCodec codec) rest, s)

theorem receive_line {underway more : Bytes} (hopen : s.ending = none)
    (hbytes : buffer ++ s.unread ++ underway = Options.line codec ++ 0x0a :: more) :
    Receives codec (buffer ++ s.unread) (receive buffer s) := by
  have hsettles := settles_receive buffer s
  generalize receive buffer s = result at hsettles
  generalize buffer ++ s.unread = bytes at hbytes hsettles
  have hline := Options.lineEnd_notMem codec
  cases hsettles with
  | agreed hsplit hline' hok hending =>
    rw [hsplit, List.append_assoc] at hbytes
    obtain ⟨rfl, -⟩ := line_unique hbytes hline' hline
    obtain rfl := Except.ok.inj (hok.symm.trans (Options.ofDocument_line codec))
    exact .agreed hsplit.symm (hending.trans hopen)
  | refused hsplit hline' herror =>
    rw [hsplit, List.append_assoc] at hbytes
    obtain ⟨rfl, -⟩ := line_unique hbytes hline' hline
    cases herror.symm.trans (Options.ofDocument_line codec)
  | tooLarge hsplit hfront hlong =>
    rw [hsplit, List.append_assoc] at hbytes
    have hshort := Options.length_line codec
    have := length_le_of_line hbytes hfront
    omega
  | ended _ _ hsome => cases hopen.symm.trans hsome
  | waits _ _ _ hsource => exact .waits (by rw [hsource]; simp [Source.unread]) (by rw [hsource])

end Negotiation

end WireCall
