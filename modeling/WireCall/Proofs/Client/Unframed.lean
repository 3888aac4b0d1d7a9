import WireCall.Proofs.Client.Completion
import WireCall.Proofs.Client.Settling

/-!
# A call that goes into no frame

A call whose argument can be encoded may still be too long for a frame. That is found out only when
the call has the right to write, and then it is treated like a stream that has failed: no byte is
written, but all calls that are pending fail, and no call can be issued any more
(`Client.unframed_call_ends_all`).
-/

namespace WireCall

namespace Client

variable {c c' : Client}

/-- A client that is lost and has nothing pending stays so. -/
theorem lost_run (horderly : c.Orderly) (hlost : c.lost = true) (hpending : c.pending = [])
    {actions : List Action} (hrun : c.run actions = some c') :
    c'.isAvailable = false ∧ c'.pending = [] := by
  have hstays : c'.Orderly ∧ c'.lost = true ∧ c'.pending = [] := by
    refine Run.keeps (P := fun c : Client => c.Orderly ∧ c.lost = true ∧ c.pending = []) ?_
      ⟨horderly, hlost, hpending⟩ hrun
    rintro c a c' ⟨horderly, hlost, hpending⟩ hstep
    refine ⟨horderly.step hstep, (Later.step hstep).lost hlost, ?_⟩
    have hturn := horderly.turn_of_step hstep
    generalize c.incident a = is at hturn
    cases hturn with
    | still _ hsame => exact hsame.trans hpending
    | issues _ hsame => exact hsame.trans hpending
    | refuses _ _ _ _ hsame => exact hsame.trans hpending
    | registers _ hopen => cases hlost.symm.trans hopen
    | settles _ _ hspared =>
      rw [hspared, hpending]
      rfl
  refine ⟨?_, hstays.2.2⟩
  simp [isAvailable, hstays.2.1]

/-- **A call that goes into no frame** when it has the right to write: nothing is written, and all
pending calls are settled. -/
theorem turn_of_misfit (horderly : c.Orderly) {n : Nat} {body : Bytes} {call : Call}
    (hholder : c.holder = some (n, body)) (hcall : c.calls[n]? = some call)
    (hmisfit : ¬ Message.Fits c.codec (⟨call.method, call.seq, ""⟩, body)) :
    ∃ e c', Message.encodeRaw c.codec ⟨call.method, call.seq, ""⟩ body = .error e ∧
      c.step .write = some c' ∧ c'.writer = c.writer ∧ c'.lost = true ∧
      c'.closeRequested = true ∧ Turn c c' [.unwritten call.seq e] := by
  cases hraw : Message.encodeRaw c.codec ⟨call.method, call.seq, ""⟩ body with
  | ok b => exact absurd ⟨b, hraw⟩ hmisfit
  | error e =>
    have hwrite : c.writer.writeEncoded ⟨call.method, call.seq, ""⟩ body =
        (.error e, c.writer) := by
      rw [codec] at hraw
      simp only [Writer.writeEncoded, hraw]
    have hstep := (Move.breaks hholder hcall hwrite).step
    have hturn := horderly.turn_abort call.seq e c.writer
    obtain ⟨failed, habort⟩ := exists_abort { c with holder := none } call.seq e
    rw [habort] at hstep hturn
    exact ⟨e, _, rfl, hstep, rfl, rfl, rfl, hturn⟩

/-! ## The main statement -/

/-- **A call that goes into no frame ends all the others.** Take any state of a client that has been
connected, in which a call has the right to write whose request goes into no frame. It can be
written only in the sense that nothing of it is: then it fails with the reason, unless a response
has completed it before, and all other pending calls fail as they do when the connection is lost.
The client is not available any more, and whatever happens afterwards, nothing is pending again and
the pending calls keep these results. -/
theorem unframed_call_ends_all {o : Options} {source : Source} {sink sink' : Sink} {c₀ c : Client}
    {actions : List Action} (hconnect : connect o source sink = (.ok c₀, sink'))
    (hrun : c₀.run actions = some c) {n : Nat} {body : Bytes} {call : Call}
    (hholder : c.holder = some (n, body)) (hcall : c.calls[n]? = some call)
    (hmisfit : ¬ Message.Fits c.codec (⟨call.method, call.seq, ""⟩, body)) :
    ∃ e c', Message.encodeRaw c.codec ⟨call.method, call.seq, ""⟩ body = .error e ∧
      c.step .write = some c' ∧ c'.writer = c.writer ∧ c'.closeRequested = true ∧
      ((call.seq, n) ∈ c.pending ∨ c.resultsOf n ≠ []) ∧
      (∀ p ∈ c.pending, c'.resultsOf p.2 = [.error (if p.1 = call.seq then .wire e
        else .connectionClosed (CallError.wire e).message)]) ∧
      ∀ more c'', c'.run more = some c'' → c''.isAvailable = false ∧ c''.pending = [] ∧
        ∀ p ∈ c.pending, c''.resultsOf p.2 = c'.resultsOf p.2 := by
  have horderly := Orderly.of_connect hconnect hrun
  obtain ⟨e, c', hraw, hstep, hwriter, hlost, hrequested, hturn⟩ :=
    turn_of_misfit horderly hholder hcall hmisfit
  have horderly' := horderly.step hstep
  have hfares : ∀ p ∈ c.pending, c'.Fares p.1 p.2
      (some [.error (if call.seq = p.1 then .wire e else teardownError (.wire e))]) := by
    intro p hp
    exact Fares.turn_pending horderly hturn hp
  have hempty : c'.pending = [] := by
    cases hturn with
    | settles _ _ hpending => simp [hpending, Incident.spared, Incident.verdict]
  refine ⟨e, c', hraw, hstep, hwriter, hrequested, ?_, ?_, ?_⟩
  · obtain ⟨call', hcall', -, hentered⟩ := horderly.holder hholder
    obtain rfl := Option.some.inj (hcall.symm.trans hcall')
    exact hentered
  · intro p hp
    rw [((hfares p hp).results horderly').1]
    simp only [eq_comm (a := p.1)]
    rfl
  · intro more c'' hmore
    obtain ⟨havailable, hpending⟩ := lost_run horderly' hlost hempty hmore
    refine ⟨havailable, hpending, fun p hp => ?_⟩
    have hfares' := (hfares p hp).run horderly' hmore
    rw [(hfares'.results (horderly'.run hmore)).1, ((hfares p hp).results horderly').1]
    rfl

/-! ## A method name that is too long -/

/-- A name of 65536 letters, one more than go into a header. -/
def longMethod : String := String.ofList (List.replicate 65536 'x')

/-- A call is written. -/
def firstCall : List Action := [.issue "Calc.Unit" ⟨.unit, ()⟩, .register 0, .write]

/-- A second call, to the given method, gets the right to write. -/
def secondCall (method : String) : List Action := [.issue method ⟨.unit, ()⟩, .register 1]

/-- The state in which the second call is about to be written, while the first one is pending. -/
theorem exists_second (method : String) :
    ∃ c₀ sink c, connect (.forCodec .compact) {} { behaviour := .faithful } = (.ok c₀, sink) ∧
      c₀.run (firstCall ++ secondCall method) = some c ∧ c.codec = .compact ∧
      c.isAvailable = true ∧ c.pending = [(1, 0), (2, 1)] ∧ c.holder = some (1, []) ∧
      c.calls[1]? = some ⟨method, 2, none⟩ := by
  have hfirst : ((connect (.forCodec .compact) {} { behaviour := .faithful }).1.toOption.bind
      (run · firstCall)).any (fun c => decide (c.codec = .compact ∧ c.isAvailable = true ∧
        c.pending = [(1, 0)] ∧ c.holder = none ∧ c.calls.length = 1 ∧ c.nextSeq = 2)) = true := by
    decide +kernel
  obtain ⟨c₀, sink, c₁, hconnect, hrun, hchecks⟩ := exists_run hfirst
  obtain ⟨hcodec, havailable, hpending, hholder, hlength, hnext⟩ := of_decide_eq_true hchecks
  have hopen : c₁.closing = false ∧ c₁.lost = false := by simpa [isAvailable] using havailable
  have hissue : c₁.step (.issue method ⟨.unit, ()⟩) =
      some { c₁ with calls := c₁.calls ++ [⟨method, 0, some []⟩] } := by
    simp only [step, issue, hcodec]
    rfl
  have hnew : (c₁.calls ++ [(⟨method, 0, some []⟩ : Call)])[1]? = some ⟨method, 0, some []⟩ := by
    rw [← hlength, List.getElem?_concat_length]
  have hsecond : c₁.run (secondCall method) =
      some { c₁ with
        calls := (c₁.calls ++ [(⟨method, 0, some []⟩ : Call)]).set 1 ⟨method, 2, none⟩
        nextSeq := 3
        pending := [(1, 0), (2, 1)]
        holder := some (1, []) } := by
    have hregister := (Move.registers (c := { c₁ with
      calls := c₁.calls ++ [⟨method, 0, some []⟩] }) hholder hnew hopen.1 hopen.2).step
    have hboth : c₁.run (secondCall method) = _ :=
      Run.cons_eq_some.mpr ⟨_, hissue, Run.cons_eq_some.mpr ⟨_, hregister, rfl⟩⟩
    rw [hboth]
    simp only [hnext, hpending]
    rfl
  exact ⟨c₀, sink, _, hconnect, Run.append_eq_some.mpr ⟨c₁, hrun, hsecond⟩, hcodec, havailable,
    rfl, rfl, List.getElem?_set_self (List.getElem?_eq_some_iff.mp hnew).1⟩

/-- A call to a method of such a name goes into no frame. -/
theorem not_fits_longMethod (seq : UInt64) (body : Bytes) :
    ¬ Message.Fits .compact (⟨longMethod, seq, ""⟩, body) := by
  refine Message.not_fits_of_long (.inl ?_)
  exact Nat.lt_of_lt_of_eq (Nat.lt_succ_self 65535) (Bytes.length_ofText_replicate 65536).symm

theorem unframed_call_ends_all_long :
    ∃ c₀ sink c e c', connect (.forCodec .compact) {} { behaviour := .faithful } = (.ok c₀, sink) ∧
      c₀.run (firstCall ++ secondCall longMethod) = some c ∧
      Message.encodeRaw .compact ⟨longMethod, 2, ""⟩ [] = .error e ∧
      c.step .write = some c' ∧ c'.resultsOf 1 = [.error (.wire e)] ∧ c'.isAvailable = false := by
  obtain ⟨c₀, sink, c, hconnect, hrun, hcodec, -, hpending, hholder, hcall⟩ :=
    exists_second longMethod
  have hmisfit : ¬ Message.Fits c.codec (⟨longMethod, 2, ""⟩, []) := by
    rw [hcodec]
    exact not_fits_longMethod 2 []
  obtain ⟨e, c', hraw, hstep, -, -, -, hresults, hafter⟩ :=
    unframed_call_ends_all hconnect hrun hholder hcall hmisfit
  rw [hcodec] at hraw
  have hown := hresults (2, 1) (by simp [hpending])
  exact ⟨c₀, sink, c, e, c', hconnect, hrun, hraw, hstep, hown, (hafter [] c' rfl).1⟩

/-- A first call is pending on a client that is available. Then a second call goes into no frame: no
byte is written for it, and the first call fails and the client is not available any more. -/
theorem pending_call_ended :
    ∃ c₀ sink c e c', connect (.forCodec .compact) {} { behaviour := .faithful } = (.ok c₀, sink) ∧
      c₀.run (firstCall ++ secondCall longMethod) = some c ∧ c.isAvailable = true ∧
      (1, 0) ∈ c.pending ∧ c.step .write = some c' ∧ c'.writer = c.writer ∧
      c'.resultsOf 0 = [.error (.connectionClosed (CallError.wire e).message)] ∧
      c'.pending = [] ∧ c'.isAvailable = false := by
  obtain ⟨c₀, sink, c, hconnect, hrun, hcodec, havailable, hpending, hholder, hcall⟩ :=
    exists_second longMethod
  have hmisfit : ¬ Message.Fits c.codec (⟨longMethod, 2, ""⟩, []) := by
    rw [hcodec]
    exact not_fits_longMethod 2 []
  have horderly := Orderly.of_connect hconnect hrun
  obtain ⟨e, c', -, hstep, hwriter, hlost, -, hturn⟩ :=
    turn_of_misfit horderly hholder hcall hmisfit
  have hmem : (1, 0) ∈ c.pending := by simp [hpending]
  have hfares := Fares.turn_pending horderly hturn hmem
  obtain ⟨hunavailable, hempty⟩ : c'.isAvailable = false ∧ c'.pending = [] := by
    cases hturn with
    | settles _ _ hspared => simp [isAvailable, hlost, hspared, Incident.spared, Incident.verdict]
  exact ⟨c₀, sink, c, e, c', hconnect, hrun, havailable, hmem, hstep, hwriter,
    (hfares.results (horderly.step hstep)).1, hempty, hunavailable⟩

end Client

end WireCall
