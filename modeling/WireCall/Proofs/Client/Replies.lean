import WireCall.Proofs.Client.Completion
import WireCall.Proofs.Client.Settling

/-!
# Responses and calls are matched by number

A client may be connected to anyone. Whatever responses it hears, each of them is used up as a whole
and completes the one call that is pending under its number, if there is one; nothing else about the
client changes (`Client.step_read_of_next?`). So a call is completed by the first response under its
number that is read after its registration, or by the end of the connection
(`Client.responses_matched`).
-/

namespace WireCall

namespace Client

variable {c c' : Client} {is : List Incident}

/-! ## One response -/

/-- **A response is read**: it is used up, and completes the call that is pending under its
number. -/
theorem step_read_of_next? {m : Header × Bytes} {rest : Bytes} (hreading : c.receiving = .reading)
    (hnext : Message.next? c.reader.codec c.reader.bytes = some (m, rest)) :
    ∃ reader, reader.bytes = rest ∧ reader.codec = c.reader.codec ∧
      reader.source.ending = c.reader.source.ending ∧
      (c.pending? m.1.seq = none → c.step .read = some { c with reader }) ∧
      ∀ n, c.pending? m.1.seq = some n →
        c.step .read = some (complete
          { c with reader, pending := without c.pending m.1.seq } n (Message.outcome m)) := by
  obtain ⟨hd, body⟩ := m
  obtain ⟨reader, hread, hbytes, hbody, -⟩ := Reader.readHeader_of_next? hnext
  obtain ⟨-, -, -, hcodec, hending⟩ := Reader.readHeader_got hread
  refine ⟨{ reader with pending := none }, hbytes, hcodec, hending, ?_, ?_⟩
  · intro hnone
    exact (Move.ignores hreading hread hbody hnone).step
  · intro n hn
    exact (Move.hears hreading hread hbody hn).step

/-- What the caller makes of a response. -/
theorem decodeReply_of_outcome (codec : Codec) (m : Header × Bytes) (s : Shape) :
    decodeReply codec s (Message.outcome m) =
      if m.1.error = "" then (codec.decode s m.2).mapError .decodeReply
      else .error (.server m.1.error) := by
  by_cases hblank : m.1.error = ""
  · simp [Message.outcome, Header.isError, decodeReply, hblank]
  · simp [Message.outcome, Header.isError, decodeReply, hblank]

/-! ## Numbers -/

/-- **A call that comes in time is pending under the next number.** -/
theorem entered_of_register {n : Nat} (hstep : c.step (.register n) = some c')
    (havailable : c.isAvailable) :
    (c.nextSeq, n) ∈ c'.pending ∧ c'.calls[n]?.map Call.seq = some c.nextSeq := by
  have hopen : c.closing = false ∧ c.lost = false := by simpa [isAvailable] using havailable
  cases move_of_step hstep with
  | refuses _ _ hover => simp [hopen] at hover
  | registers _ hcall =>
    refine ⟨List.mem_append_right _ List.mem_cons_self, ?_⟩
    rw [List.getElem?_set_self (List.getElem?_eq_some_iff.mp hcall).1]
    rfl

/-- A number is given out only to a call that waits for it. -/
theorem Turn.taken (h : Turn c c' is) {seq : UInt64} (hmem : .taken seq ∈ is) :
    c.nextSeq = seq ∧ ∃ (n : Nat) (call : Call), c.calls[n]? = some call ∧ call.waiting.isSome := by
  cases h with
  | registers hcall =>
    obtain heq := List.mem_singleton.mp hmem
    exact ⟨(Incident.taken.inj heq).symm, _, _, hcall, rfl⟩
  | settles hi =>
    obtain rfl := List.mem_singleton.mp hmem
    exact absurd (if_pos rfl) (hi seq)
  | _ => cases hmem

/-- **The number of a call is not given out again**, as long as the numbers do not run out. -/
theorem not_taken (horderly : c.Orderly) (hbooks : c.calls.length < numbers → c.Coherent)
    {seq : UInt64} {n : Nat} (hmem : (seq, n) ∈ c.pending) {actions : List Action}
    (hrun : c.run actions = some c') (hfew : c'.calls.length < numbers) :
    .taken seq ∉ c.incidents actions := by
  obtain ⟨call, hcall, hseq, hnot, -⟩ := horderly.entered _ hmem
  refine Run.induct
    (P := fun as c' => c'.calls.length < numbers → .taken seq ∉ c.incidents as)
    (fun _ => List.not_mem_nil) ?_ actions c' hrun hfew
  intro as m a c' hm hnone hstep hfew
  have hfew' : m.calls.length < numbers :=
    Nat.lt_of_le_of_lt (Later.step hstep).length_le hfew
  have hlater : Later c m := Later.run hm
  have hbooks' : m.Coherent :=
    (hbooks (Nat.lt_of_le_of_lt hlater.length_le hfew')).run hm hfew'
  rw [incidents, Run.log_concat hm hstep, List.mem_append]
  rintro (hmem | hmem)
  · exact hnone hfew' hmem
  · -- the call has the number, which is below the next one
    obtain ⟨hnext, k, waiting, hwaiting, hwaits⟩ :=
      ((horderly.run hm).turn_of_step hstep).taken hmem
    have hnext' := hbooks'.toNat_nextSeq hwaiting hwaits hfew'
    obtain ⟨call', hcall', -, hstays⟩ := hlater.calls hcall
    obtain rfl := hstays hnot
    exact hbooks'.nextSeq_fresh hnext' (Coherent.mem_calls hcall') (hseq.trans hnext.symm)

/-! ## The main statement -/

/-- **Responses and calls are matched by number.** Whatever has happened to a client that has been
connected:

- a response that has arrived is used up when it is read, and leaves what stands behind it alone; if
  no call is pending under its number, nothing else changes, and if there is one, exactly this call
  leaves the table, with the outcome of the response;
- the caller gets the error text of the response if there is one, and otherwise what its body
  decodes to, or the reason why it does not;
- a call that is registered in time is pending under the next number;
- a call that is pending under a number stays so until there is a verdict on this number, and the
  results of the first verdict are the only ones it ever has.

All this holds for any number of calls. Only that no verdict is a new call under the same number
rests on there being fewer calls than numbers, which begin again from 0 behind the last one. -/
theorem responses_matched {o : Options} {source : Source} {sink sink' : Sink} {c₀ c : Client}
    {actions : List Action} (hconnect : connect o source sink = (.ok c₀, sink'))
    (hrun : c₀.run actions = some c) :
    (∀ m rest, c.receiving = .reading →
      Message.next? c.reader.codec c.reader.bytes = some (m, rest) →
      ∃ reader, reader.bytes = rest ∧ reader.codec = c.reader.codec ∧
        reader.source.ending = c.reader.source.ending ∧
        (c.pending? m.1.seq = none → c.step .read = some { c with reader }) ∧
        ∀ n, c.pending? m.1.seq = some n →
          (∃ call, c.calls[n]? = some call ∧ call.seq = m.1.seq) ∧
          c.step .read = some (complete
            { c with reader, pending := without c.pending m.1.seq } n (Message.outcome m))) ∧
    (∀ m s, decodeReply c.codec s (Message.outcome m) =
      if m.1.error = "" then (c.codec.decode s m.2).mapError .decodeReply
      else .error (.server m.1.error)) ∧
    (∀ n c', c.step (.register n) = some c' → c.isAvailable →
      (c.nextSeq, n) ∈ c'.pending ∧ c'.calls[n]?.map Call.seq = some c.nextSeq) ∧
    ∀ seq n more c', (seq, n) ∈ c.pending → c.run more = some c' →
      c'.resultsOf n = ((c.incidents more).findSome? (Incident.verdict seq)).getD [] ∧
      ((seq, n) ∈ c'.pending ↔ (c.incidents more).findSome? (Incident.verdict seq) = none) ∧
      (c'.calls.length < numbers → .taken seq ∉ c.incidents more) := by
  have horderly := Orderly.of_connect hconnect hrun
  have hinit : c₀.Coherent := by
    obtain ⟨r, w, rfl⟩ := exists_of_connect hconnect
    exact Coherent.init r w
  refine ⟨?_, decodeReply_of_outcome c.codec, fun n c' => entered_of_register, ?_⟩
  · intro m rest hreading hnext
    obtain ⟨reader, hbytes, hcodec, hending, hnone, hsome⟩ := step_read_of_next? hreading hnext
    refine ⟨reader, hbytes, hcodec, hending, hnone, fun n hn => ⟨?_, hsome n hn⟩⟩
    obtain ⟨call, hcall, hseq, -⟩ := horderly.entered _ (mem_of_pending? hn)
    exact ⟨call, hcall, hseq⟩
  · intro seq n more c' hmem hmore
    obtain ⟨hresults, hpending⟩ :=
      (fares_of_run horderly hmem hmore).results (horderly.run hmore)
    exact ⟨hresults, hpending, not_taken horderly (hinit.run hrun) hmem hmore⟩

/-- Two calls are written. -/
def twoCalls : List Action :=
  [.issue "Calc.Unit" ⟨.unit, ()⟩, .issue "Calc.Unit" ⟨.unit, ()⟩, .register 0, .write,
    .register 1, .write]

/-- Four responses are read: one to no call, two to the second call and one to the first call. -/
def fourResponses : List Action :=
  [.receive ([(⟨"", 9, ""⟩, [1]), (⟨"", 2, "no"⟩, [2]), (⟨"", 2, ""⟩, [3]),
    (⟨"", 1, ""⟩, [4])].flatMap (Message.bytes .compact)), .read, .read, .read, .read]

/-- What the server has said about a failure. -/
def serverError? : Except CallError Bytes → Option String
  | .error (.server why) => some why
  | _ => none

theorem responses_matched_four :
    ∃ c₀ sink c c', connect .default {} { behaviour := .faithful } = (.ok c₀, sink) ∧
      c₀.run twoCalls = some c ∧ c.run fourResponses = some c' ∧
      (c'.resultsOf 0).map Except.toOption = [some [4]] ∧
      (c'.resultsOf 1).map serverError? = [some "no"] := by
  have hends : ((connect .default {} { behaviour := .faithful }).1.toOption.bind
      (run · twoCalls)).any (fun c => (c.run fourResponses).isSome &&
        decide ((1, 0) ∈ c.pending ∧ (2, 1) ∈ c.pending ∧
          (((c.incidents fourResponses).findSome? (Incident.verdict 1)).getD []).map
            Except.toOption = [some [4]] ∧
          (((c.incidents fourResponses).findSome? (Incident.verdict 2)).getD []).map
            serverError? = [some "no"])) = true := by
    decide +kernel
  obtain ⟨c₀, sink, c, hconnect, hrun, hchecks⟩ := exists_run hends
  rw [Bool.and_eq_true, decide_eq_true_eq] at hchecks
  obtain ⟨hmore, hfirst, hsecond, hreply, herror⟩ := hchecks
  obtain ⟨c', hmore⟩ := Option.isSome_iff_exists.mp hmore
  have hmatched := (responses_matched hconnect hrun).2.2.2
  refine ⟨c₀, sink, c, c', hconnect, hrun, hmore, ?_, ?_⟩
  · rw [(hmatched 1 0 _ c' hfirst hmore).1]
    exact hreply
  · rw [(hmatched 2 1 _ c' hsecond hmore).1]
    exact herror

end Client

end WireCall
