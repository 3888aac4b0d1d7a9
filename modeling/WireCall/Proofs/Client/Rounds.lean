import WireCall.Proofs.Client.Moves
import WireCall.Proofs.Message.Writer
import WireCall.Proofs.Negotiation
import WireCall.Proofs.Run

/-!
# Calls that are not answered

Nothing but the numbers limits how many calls a client makes. As long as its stream takes everything
it makes one call after another without an answer to any of them (`Client.exists_rounds`): each gets
the next number and stays pending. After as many calls as there are numbers, the next number is the
first one again.
-/

namespace WireCall

namespace Client

variable {c : Client} {n : Nat}

/-- A call is issued, gets the right to write and is written. -/
def round (n : Nat) : List Action := [.issue "Calc.Unit" ⟨.unit, ()⟩, .register n, .write]

/-- That many calls, one after another. -/
def rounds : Nat → List Action
  | 0 => []
  | n + 1 => rounds n ++ round n

/-- **How a client stands after that many calls**, of which none has been answered. -/
structure Unanswered (c : Client) (n : Nat) : Prop where
  idle : c.holder = none
  closing : c.closing = false
  lost : c.lost = false
  codec_eq : c.codec = .compact
  isOpen : c.writer.Open
  length : c.calls.length = n
  next : c.nextSeq = UInt64.ofNat (n + 1)
  /-- the last of the calls is pending -/
  last : ∀ m, n = m + 1 → (UInt64.ofNat n, m) ∈ c.pending

theorem fits_unit (seq : UInt64) : Message.Fits .compact (⟨"Calc.Unit", seq, ""⟩, []) := by
  refine Message.fits_of_short ?_ (Nat.zero_le _)
  change (Bytes.ofText "Calc.Unit").length + (Bytes.ofText "").length + 30 ≤ Frame.maxHeader
  decide

/-- **One more call** can always be made. -/
theorem Unanswered.another (h : c.Unanswered n) :
    ∃ c', c.run (round n) = some c' ∧ c'.Unanswered (n + 1) := by
  have hissues : Move c (.issue "Calc.Unit" ⟨.unit, ()⟩)
      { c with calls := c.calls ++ [⟨"Calc.Unit", 0, some []⟩] } :=
    .issues (by rw [h.codec_eq]; rfl)
  have hcall : (c.calls ++ [(⟨"Calc.Unit", 0, some []⟩ : Call)])[n]? =
      some ⟨"Calc.Unit", 0, some []⟩ := by
    rw [← h.length, List.getElem?_concat_length]
  have hregisters := Move.registers (c := { c with
    calls := c.calls ++ [⟨"Calc.Unit", 0, some []⟩] }) h.idle hcall h.closing h.lost
  have hlt := (List.getElem?_eq_some_iff.mp hcall).1
  have hcall' := List.getElem?_set_self (a := (⟨"Calc.Unit", c.nextSeq, none⟩ : Call)) hlt
  obtain ⟨writer, hwrite, hopen, hcodec, -⟩ :=
    Writer.writeEncoded_of_fits h.isOpen (h.codec_eq ▸ fits_unit c.nextSeq)
  have hwrites := Move.writes (c := { c with
    calls := List.set (c.calls ++ [(⟨"Calc.Unit", 0, some []⟩ : Call)]) n
      ⟨"Calc.Unit", c.nextSeq, none⟩
    nextSeq := c.nextSeq + 1
    pending := without c.pending c.nextSeq ++ [(c.nextSeq, n)]
    holder := some (n, []) }) rfl hcall' hwrite
  refine ⟨_, Run.cons_eq_some.mpr ⟨_, hissues.step, Run.cons_eq_some.mpr
    ⟨_, hregisters.step, Run.cons_eq_some.mpr ⟨_, hwrites.step, rfl⟩⟩⟩, rfl, h.closing, h.lost,
    hcodec.trans h.codec_eq, hopen, ?_, ?_, ?_⟩
  · simp [h.length]
  · rw [h.next, ← UInt64.ofNat_one, ← UInt64.ofNat_add]
  · rintro m hm
    obtain rfl := Nat.succ.inj hm
    rw [h.next]
    exact List.mem_append_right _ List.mem_cons_self

/-- **Any number of calls** can be made by a client that has been connected. -/
theorem exists_rounds (n : Nat) :
    ∃ c₀ sink c, connect .default {} { behaviour := .faithful } = (.ok c₀, sink) ∧
      c₀.run (rounds n) = some c ∧ c.Unanswered n := by
  have hline : Options.toLine .default = .ok (Options.line .compact ++ [0x0a]) :=
    Options.toLine_forCodec .compact
  obtain ⟨sink, hsend, -, hbehaviour, -⟩ := Sink.send_accepts SinkBehaviour.accepts_faithful
    (s := { behaviour := .faithful }) (Options.line .compact ++ [0x0a])
  have hconnect : connect .default {} { behaviour := .faithful } =
      (.ok { reader := .make .compact [] {}, writer := { codec := .compact, sink } }, sink) := by
    simp only [connect, Negotiation.send, hline, hsend]
    rfl
  suffices ∃ c, run { reader := .make .compact [] {}, writer := { codec := .compact, sink } }
      (rounds n) = some c ∧ c.Unanswered n by
    obtain ⟨c, hrun, hc⟩ := this
    exact ⟨_, sink, c, hconnect, hrun, hc⟩
  induction n with
  | zero =>
    refine ⟨_, rfl, rfl, rfl, rfl, rfl, ⟨rfl, ?_⟩, rfl, rfl, nofun⟩
    exact hbehaviour ▸ SinkBehaviour.accepts_faithful
  | succ n ih =>
    obtain ⟨c, hrun, hc⟩ := ih
    obtain ⟨c', hround, hc'⟩ := hc.another
    exact ⟨c', Run.append_eq_some.mpr ⟨c, hrun, hround⟩, hc'⟩

end Client

end WireCall
