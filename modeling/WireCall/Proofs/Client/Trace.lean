import WireCall.Proofs.Client.Completion
import WireCall.Proofs.Message.Reader
import WireCall.Proofs.Message.Writer
import WireCall.Proofs.Negotiation

/-!
# What a client has written and heard

The events on a client determine how it stands (`Client.Traced`), as long as it is neither closed
nor given up, its stream accepts everything and what it hears are responses to its own requests.
What has been written is the line that opens the connection, and behind it the requests in the order
of their numbers (`Client.Speaks`). Each request is made of the arguments of one call
(`Client.Asks`). And each call has the results that the responses under its number give it
(`Client.Hears`).

Every step keeps this (`Client.Traced.step`).
-/

namespace WireCall

namespace Client

/-- What has to be remembered of what happens to a client. -/
inductive Event where
  /-- a call is issued -/
  | issued (method : String) (argument : Datum)
  /-- the request of a call is handed to the writer -/
  | sent (m : Header × Bytes)
  /-- bytes of the server arrive -/
  | arrived (piece : Bytes)
  /-- a response is read -/
  | heard (m : Header × Bytes)

/-! ## Reading the events -/

/-- The calls that have been issued, each with its argument. -/
def issues (log : List Event) : List (String × Datum) :=
  log.filterMap fun
    | .issued method argument => some (method, argument)
    | _ => none

/-- The requests that have been written. -/
def sent (log : List Event) : List (Header × Bytes) :=
  log.filterMap fun
    | .sent m => some m
    | _ => none

/-- The bytes that have arrived. -/
def arrivals (log : List Event) : Bytes :=
  log.flatMap fun
    | .arrived piece => piece
    | _ => []

/-- The responses that have been read. -/
def heard (log : List Event) : List (Header × Bytes) :=
  log.filterMap fun
    | .heard m => some m
    | _ => none

section Append

variable (log ev : List Event)

@[simp]
theorem issues_append : issues (log ++ ev) = issues log ++ issues ev := List.filterMap_append

@[simp]
theorem sent_append : sent (log ++ ev) = sent log ++ sent ev := List.filterMap_append

@[simp]
theorem arrivals_append : arrivals (log ++ ev) = arrivals log ++ arrivals ev := List.flatMap_append

@[simp]
theorem heard_append : heard (log ++ ev) = heard log ++ heard ev := List.filterMap_append

end Append

/-- The events that a step leaves on a client. -/
def events (c : Client) : Action → List Event
  | .issue method argument => [.issued method argument]
  | .write =>
    match c.holder with
    | some (n, body) =>
      match c.calls[n]? with
      | some call => [.sent (⟨call.method, call.seq, ""⟩, body)]
      | none => []
    | none => []
  | .receive piece => [.arrived piece]
  | .read =>
    match c.reader.readHeader with
    | (.got h, reader) =>
      match reader.pending with
      | some body => [.heard (h, body)]
      | none => []
    | _ => []
  | _ => []

theorem events_read {c : Client} {h : Header} {body : Bytes} {reader : Reader}
    (hread : c.reader.readHeader = (.got h, reader)) (hbody : reader.pending = some body) :
    c.events .read = [.heard (h, body)] := by
  simp only [events, hread, hbody]

/-- The call that an action issues, if it does. -/
def Action.issued? : Action → Option (String × Datum)
  | .issue method argument => some (method, argument)
  | _ => none

theorem issues_events (c : Client) (a : Action) : issues (c.events a) = a.issued?.toList := by
  cases a with
  | write | read =>
    simp only [events]
    split
    · split <;> rfl
    · rfl
  | _ => rfl

/-! ## How a client stands -/

/-- Whether the client is in use, and has not begun to come to its end. -/
structure Calm (c : Client) : Prop where
  receiving : c.receiving = .reading
  closing : c.closing = false
  lost : c.lost = false
  closeRequested : c.closeRequested = false
  closeWaiting : c.closeWaiting = false

/-- **The request of a call**: it bears the method and the number of the call, and its encoded
argument. -/
structure Asks (codec : Codec) (log : List Event) (c : Client) (n number : Nat)
    (m : Header × Bytes) : Prop where
  call : ∃ call, c.calls[n]? = some call ∧ call.waiting = none ∧ call.seq.toNat = number ∧
    m.1 = ⟨call.method, call.seq, ""⟩
  argument : ∃ a, (issues log)[n]? = some (m.1.method, a) ∧ codec.encode a.shape a.value = .ok m.2

/-- The calls are those that have been issued, and those that wait have their arguments encoded. -/
structure Issued (codec : Codec) (log : List Event) (c : Client) : Prop where
  length : c.calls.length = (issues log).length
  argument : ∀ {n : Nat} {call : Call}, c.calls[n]? = some call →
    ∃ a, (issues log)[n]? = some (call.method, a) ∧
      ∀ body, call.waiting = some body → codec.encode a.shape a.value = .ok body

/-- **What has been written** is the opening and the requests, in the order of their numbers. -/
structure Speaks (codec : Codec) (opening : Bytes) (log : List Event) (c : Client) : Prop where
  codec_eq : c.writer.codec = codec
  isOpen : c.writer.Open
  shutdowns : c.writer.sink.shutdowns = 0
  taken : c.writer.sink.taken = opening ++ (sent log).flatMap (Message.bytes codec)
  asks : ∀ {t : Nat} {m : Header × Bytes}, (sent log)[t]? = some m →
    ∃ n, Asks codec log c n (t + 1) m
  holder : ∀ {n : Nat} {body : Bytes}, c.holder = some (n, body) →
    ∃ h, Asks codec log c n ((sent log).length + 1) (h, body)
  registered : c.registered = (sent log).length + if c.holder.isSome then 1 else 0

/-- **What has been heard** are responses to the requests, at most one to each, and they are the
results of the calls. -/
structure Hears (codec : Codec) (log : List Event) (c : Client) : Prop where
  codec_eq : c.reader.codec = codec
  ending : c.reader.source.ending = none
  splits : Message.Splits codec (arrivals log) (heard log) c.reader.bytes
  numbered : ∀ m ∈ heard log, 0 < m.1.seq.toNat ∧ m.1.seq.toNat ≤ (sent log).length
  once : ((heard log).map fun m => m.1.seq).Nodup
  results : ∀ {n : Nat} {call : Call}, c.calls[n]? = some call →
    c.resultsOf n = ((heard log).filter fun m => m.1.seq = call.seq).map Message.outcome

/-- **How a client stands** after the events on it. -/
structure Traced (codec : Codec) (opening : Bytes) (log : List Event) (c : Client) : Prop where
  calm : c.Calm
  books : c.Coherent
  issued : Issued codec log c
  speaks : Speaks codec opening log c
  hears : Hears codec log c

/-- Whether a step leaves the client in use. -/
def Action.isPeaceful : Action → Bool
  | .close | .abandon | .hangUp _ => false
  | _ => true

/-- Whether the response at the front of what has arrived is one that is still to come. -/
def Expects (codec : Codec) (log : List Event) (c : Client) : Prop :=
  ∀ m rest, Message.next? codec c.reader.bytes = some (m, rest) →
    (0 < m.1.seq.toNat ∧ m.1.seq.toNat ≤ (sent log).length) ∧ ∀ m' ∈ heard log, m'.1.seq ≠ m.1.seq

variable {codec : Codec} {opening : Bytes} {log ev : List Event} {c c' : Client}

theorem Asks.later {n number : Nat} {m : Header × Bytes} (h : Asks codec log c n number m)
    (hlater : Later c c') (ev : List Event) : Asks codec (log ++ ev) c' n number m := by
  obtain ⟨call, hcall, hwaiting, hnumber, hheader⟩ := h.call
  obtain ⟨a, ha, hencode⟩ := h.argument
  obtain ⟨call', hcall', -, hstays⟩ := hlater.calls hcall
  obtain rfl := hstays hwaiting
  refine ⟨⟨call', hcall', hwaiting, hnumber, hheader⟩, a, ?_, hencode⟩
  rw [issues_append, List.getElem?_append_left (List.getElem?_eq_some_iff.mp ha).1]
  exact ha

/-! ## What a step leaves alone -/

theorem Issued.quiet (h : Issued codec log c) (hissues : issues ev = [])
    (hcalls : c'.calls = c.calls) : Issued codec (log ++ ev) c' := by
  refine ⟨?_, ?_⟩
  · rw [issues_append, hissues, List.append_nil, hcalls]
    exact h.length
  · intro n call hcall
    rw [issues_append, hissues, List.append_nil]
    exact h.argument (hcalls ▸ hcall)

theorem Speaks.quiet (h : Speaks codec opening log c) (hlater : Later c c') (hsent : sent ev = [])
    (hwriter : c'.writer = c.writer) (hholder : c'.holder = c.holder)
    (hregistered : c'.registered = c.registered) : Speaks codec opening (log ++ ev) c' := by
  have hlog : sent (log ++ ev) = sent log := by rw [sent_append, hsent, List.append_nil]
  refine ⟨hwriter ▸ h.codec_eq, hwriter ▸ h.isOpen, hwriter ▸ h.shutdowns, ?_, ?_, ?_, ?_⟩
  · rw [hlog, hwriter]
    exact h.taken
  · intro t m hm
    obtain ⟨n, hn⟩ := h.asks (hlog ▸ hm)
    exact ⟨n, hn.later hlater ev⟩
  · intro n body hbody
    obtain ⟨hd, hhd⟩ := h.holder (hholder ▸ hbody)
    rw [hlog]
    exact ⟨hd, hhd.later hlater ev⟩
  · rw [hlog, hholder, hregistered]
    exact h.registered

/-- A step that does not read leaves the results alone. -/
theorem Hears.quiet (h : Hears codec log c) (hheard : heard ev = []) (harrivals : arrivals ev = [])
    (hreader : c'.reader = c.reader)
    (hresults : ∀ {n : Nat} {call : Call}, c'.calls[n]? = some call →
      c'.resultsOf n = ((heard log).filter fun m => m.1.seq = call.seq).map Message.outcome) :
    Hears codec (log ++ ev) c' := by
  have hlog : heard (log ++ ev) = heard log := by rw [heard_append, hheard, List.append_nil]
  refine ⟨hreader ▸ h.codec_eq, hreader ▸ h.ending, ?_, ?_, ?_, ?_⟩
  · rw [arrivals_append, harrivals, List.append_nil, hlog, hreader]
    exact h.splits
  · intro m hm
    rw [sent_append, List.length_append]
    obtain ⟨hpos, hle⟩ := h.numbered m (hlog ▸ hm)
    exact ⟨hpos, Nat.le_add_right_of_le hle⟩
  · rw [hlog]
    exact h.once
  · rw [hlog]
    exact hresults

/-- Nothing is heard under a number that no request has yet. -/
theorem Hears.filter_eq_nil (h : Hears codec log c) {seq : UInt64}
    (hseq : seq.toNat = 0 ∨ (sent log).length < seq.toNat) :
    (heard log).filter (fun m => m.1.seq = seq) = [] := by
  rw [List.filter_eq_nil_iff]
  intro m hm heq
  obtain ⟨hpos, hle⟩ := h.numbered m hm
  rw [decide_eq_true_eq] at heq
  rw [heq] at hpos hle
  omega

/-! ## Issuing, registering and writing -/

theorem Traced.issue (h : Traced codec opening log c) {method : String} {argument : Datum}
    (hstep : c.step (.issue method argument) = some c') (hfew : c.calls.length < numbers)
    {body : Bytes} (hencode : codec.encode argument.shape argument.value = .ok body) :
    Traced codec opening (log ++ [.issued method argument]) c' := by
  have hlater : Later c c' := Later.step hstep
  have hbooks := h.books.step hstep hfew
  cases move_of_step hstep with
  | misissues hfails =>
    rw [show c.codec = codec from h.speaks.codec_eq, hencode] at hfails
    cases hfails
  | @issues _ _ body' hencode' =>
  obtain rfl : body' = body := by
    rw [show c.codec = codec from h.speaks.codec_eq, hencode] at hencode'
    exact (Except.ok.inj hencode').symm
  have hissues : issues (log ++ [.issued method argument]) = issues log ++ [(method, argument)] :=
    issues_append log _
  refine ⟨⟨h.calm.receiving, h.calm.closing, h.calm.lost, h.calm.closeRequested,
    h.calm.closeWaiting⟩, hbooks, ⟨?_, ?_⟩, h.speaks.quiet hlater rfl rfl rfl ?_, ?_⟩
  · rw [hissues, List.length_append, List.length_append, h.issued.length]
    rfl
  · intro n call hcall
    rw [hissues]
    rcases getElem?_of_concat hcall with hcall | ⟨rfl, rfl⟩
    · obtain ⟨a, ha, hwaiting⟩ := h.issued.argument hcall
      exact ⟨a, by rw [List.getElem?_append_left (List.getElem?_eq_some_iff.mp ha).1]; exact ha,
        hwaiting⟩
    · refine ⟨argument, ?_, fun b hb => Option.some.inj hb ▸ hencode⟩
      rw [h.issued.length, List.getElem?_concat_length]
  · simp [registered]
  · refine h.hears.quiet rfl rfl rfl ?_
    intro n call hcall
    rcases getElem?_of_concat hcall with hcall | ⟨rfl, rfl⟩
    · exact h.hears.results hcall
    · -- a new call has no results
      rw [h.hears.filter_eq_nil (.inl rfl)]
      have hstanding := hbooks.standing hcall
      cases hstanding with
      | waits _ _ _ hnone => exact hnone
      | pends _ hnone => exact hnone
      | done hwaits => cases hwaits

theorem Traced.register (h : Traced codec opening log c) {n : Nat}
    (hstep : c.step (.register n) = some c') (hfew : c.calls.length < numbers) :
    Traced codec opening (log ++ []) c' := by
  have hlater : Later c c' := Later.step hstep
  have hbooks := h.books.step hstep hfew
  cases move_of_step hstep with
  | refuses _ _ hover => simp [h.calm.closing, h.calm.lost] at hover
  | @registers _ method seq body hholder hcall =>
    have hlt := (List.getElem?_eq_some_iff.mp hcall).1
    have hnumber : c.nextSeq.toNat = (sent log).length + 1 := by
      have hregistered := h.speaks.registered
      rw [hholder] at hregistered
      rw [h.books.toNat_nextSeq hcall rfl hfew, hregistered]
      rfl
    obtain ⟨a, ha, hwaiting⟩ := h.issued.argument hcall
    refine ⟨⟨h.calm.receiving, h.calm.closing, h.calm.lost, h.calm.closeRequested,
      h.calm.closeWaiting⟩, hbooks, ⟨?_, ?_⟩, ?_, ?_⟩
    · rw [List.append_nil, List.length_set]
      exact h.issued.length
    · intro k call hk
      rw [List.append_nil]
      rcases getElem?_of_set hk with ⟨rfl, rfl⟩ | ⟨-, hk⟩
      · exact ⟨a, ha, nofun⟩
      · exact h.issued.argument hk
    · rw [List.append_nil]
      refine ⟨h.speaks.codec_eq, h.speaks.isOpen, h.speaks.shutdowns, h.speaks.taken, ?_, ?_, ?_⟩
      · intro t m hm
        obtain ⟨k, hk⟩ := h.speaks.asks hm
        exact ⟨k, by simpa using hk.later hlater []⟩
      · intro k b hb
        obtain ⟨rfl, rfl⟩ := Prod.mk.inj (Option.some.inj hb)
        exact ⟨⟨method, c.nextSeq, ""⟩,
          ⟨_, List.getElem?_set_self hlt, rfl, hnumber, rfl⟩, a, ha, hwaiting _ rfl⟩
      · have hregistered := h.speaks.registered
        rw [hholder] at hregistered
        have hget : c.calls[n] = ⟨method, seq, some body⟩ := (List.getElem?_eq_some_iff.mp hcall).2
        have hseq : seq = 0 := h.books.unnumbered _ (Coherent.mem_calls hcall) rfl
        have hnonzero : c.nextSeq ≠ 0 := by
          intro h0
          rw [h0] at hnumber
          simp at hnumber
        simp only [registered] at hregistered ⊢
        rw [List.countP_set hlt, hregistered, hget, hseq]
        simp [hnonzero]
    · refine h.hears.quiet rfl rfl rfl ?_
      intro k call hk
      rcases getElem?_of_set hk with ⟨rfl, rfl⟩ | ⟨-, hk⟩
      · -- nothing has been heard under the new number
        rw [h.hears.filter_eq_nil (.inr (by rw [hnumber]; exact Nat.lt_succ_self _))]
        refine (h.hears.results hcall).trans ?_
        rw [h.books.unnumbered _ (Coherent.mem_calls hcall) rfl, h.hears.filter_eq_nil (.inl rfl)]
      · exact h.hears.results hk

theorem Traced.write (h : Traced codec opening log c) (hstep : c.step .write = some c')
    (hfew : c.calls.length < numbers)
    (hfits : ∀ m ∈ sent (log ++ c.events .write), Message.Fits codec m) :
    Traced codec opening (log ++ c.events .write) c' := by
  have hlater : Later c c' := Later.step hstep
  have hbooks := h.books.step hstep hfew
  obtain ⟨n, body, call, hholder, hcall⟩ : ∃ n body call, c.holder = some (n, body) ∧
      c.calls[n]? = some call := by
    cases move_of_step hstep with
    | writes hholder hcall | breaks hholder hcall => exact ⟨_, _, _, hholder, hcall⟩
  obtain ⟨hd, hasks⟩ := h.speaks.holder hholder
  have hheader : hd = ⟨call.method, call.seq, ""⟩ := by
    obtain ⟨call', hcall', -, -, hheader⟩ := hasks.call
    rw [hcall] at hcall'
    obtain rfl := Option.some.inj hcall'
    exact hheader
  subst hheader
  have hevents : c.events .write = [.sent (⟨call.method, call.seq, ""⟩, body)] := by
    simp only [events, hholder, hcall]
  rw [hevents] at hfits ⊢
  have hsent : sent (log ++ [.sent (⟨call.method, call.seq, ""⟩, body)]) =
      sent log ++ [(⟨call.method, call.seq, ""⟩, body)] := sent_append log _
  obtain ⟨writer, hwrite, hopen, hcodec, htaken, hshutdowns⟩ :=
    Writer.writeEncoded_of_fits h.speaks.isOpen (m := (⟨call.method, call.seq, ""⟩, body)) (by
      rw [h.speaks.codec_eq]
      refine hfits _ ?_
      rw [hsent]
      exact List.mem_append_right _ List.mem_cons_self)
  obtain rfl := Option.some.inj (hstep.symm.trans (Move.writes hholder hcall hwrite).step)
  refine ⟨⟨h.calm.receiving, h.calm.closing, h.calm.lost, h.calm.closeRequested,
    h.calm.closeWaiting⟩, hbooks, h.issued.quiet rfl rfl, ?_, ?_⟩
  · refine ⟨hcodec.trans h.speaks.codec_eq, hopen, hshutdowns.trans h.speaks.shutdowns, ?_, ?_,
      nofun, ?_⟩
    · rw [htaken, h.speaks.taken, hsent, List.flatMap_append, List.append_assoc,
        h.speaks.codec_eq]
      simp
    · intro t m hm
      rw [hsent] at hm
      rcases getElem?_of_concat hm with hm | ⟨rfl, rfl⟩
      · obtain ⟨k, hk⟩ := h.speaks.asks hm
        exact ⟨k, hk.later hlater _⟩
      · exact ⟨n, hasks.later hlater _⟩
    · have hregistered := h.speaks.registered
      rw [hholder] at hregistered
      rw [hsent, List.length_append]
      exact hregistered
  · exact h.hears.quiet rfl rfl rfl h.hears.results

/-! ## What arrives and is read -/

theorem Traced.receive (h : Traced codec opening log c) (piece : Bytes) :
    Traced codec opening (log ++ [.arrived piece]) { c with reader := c.reader.arrive piece } := by
  have hlater : Later c { c with reader := c.reader.arrive piece } :=
    Later.step (a := .receive piece) rfl
  have hheard : heard (log ++ [.arrived piece]) = heard log := by
    rw [heard_append]
    exact List.append_nil _
  refine ⟨⟨h.calm.receiving, h.calm.closing, h.calm.lost, h.calm.closeRequested,
    h.calm.closeWaiting⟩, h.books.congr rfl rfl rfl rfl rfl h.books.ended, h.issued.quiet rfl rfl,
    h.speaks.quiet hlater rfl rfl rfl rfl, ?_⟩
  refine ⟨h.hears.codec_eq, (Reader.ending_arrive _ _).trans h.hears.ending, ?_, ?_, ?_, ?_⟩
  · have harrivals : arrivals (log ++ [.arrived piece]) = arrivals log ++ piece := by
      simp [arrivals]
    have hbytes : (c.reader.arrive piece).bytes = c.reader.bytes ++ piece := by
      simp [Reader.bytes_arrive, h.hears.ending]
    rw [hheard, harrivals, hbytes]
    exact h.hears.splits.append piece
  · intro m hm
    rw [sent_append, List.length_append]
    obtain ⟨hpos, hle⟩ := h.hears.numbered m (hheard ▸ hm)
    exact ⟨hpos, Nat.le_add_right_of_le hle⟩
  · rw [hheard]
    exact h.hears.once
  · rw [hheard]
    exact h.hears.results

theorem resultsOf_complete (c : Client) (n m : Nat) (r : Except CallError Bytes) :
    (c.complete n r).resultsOf m = c.resultsOf m ++ if n = m then [r] else [] := by
  simp only [resultsOf, complete, List.filter_append, List.map_append]
  by_cases h : n = m
  · simp [h]
  · simp [h]

/-- The call of a response that is still to come is pending under its number. -/
theorem Traced.pending_of_expected (h : Traced codec opening log c) {seq : UInt64}
    (hnumber : 0 < seq.toNat ∧ seq.toNat ≤ (sent log).length)
    (hnew : ∀ m ∈ heard log, m.1.seq ≠ seq) :
    ∃ n call, c.calls[n]? = some call ∧ call.seq = seq ∧ c.pending? seq = some n := by
  have hlt : seq.toNat - 1 < (sent log).length := by omega
  obtain ⟨n, hasks⟩ := h.speaks.asks (List.getElem?_eq_getElem hlt)
  obtain ⟨call, hcall, hwaiting, hseq, -⟩ := hasks.call
  have hseq : call.seq = seq := UInt64.toNat.inj (by omega)
  have hnone : c.resultsOf n = [] := by
    rw [h.hears.results hcall, hseq, List.filter_eq_nil_iff.mpr fun m hm => ?_]
    · rfl
    · simpa using hnew m hm
  refine ⟨n, call, hcall, hseq, ?_⟩
  cases h.books.standing hcall with
  | waits hzero =>
    rw [← hseq, hzero] at hnumber
    exact absurd hnumber.1 (Nat.lt_irrefl 0)
  | pends hmem => exact hseq ▸ pending?_of_mem h.books.keys hmem
  | done _ _ hone =>
    obtain ⟨r, hr⟩ := hone
    cases hr.symm.trans hnone

/-- A response that is expected is read, and becomes the result of its call. -/
theorem Traced.hear (h : Traced codec opening log c) (hstep : c.step .read = some c')
    (hfew : c.calls.length < numbers) {hd : Header} {body : Bytes} {reader : Reader}
    (hread : c.reader.readHeader = (.got hd, reader)) (hbody : reader.pending = some body)
    (hexpects : Expects codec log c) : Traced codec opening (log ++ [.heard (hd, body)]) c' := by
  have hlater : Later c c' := Later.step hstep
  have hbooks := h.books.step hstep hfew
  obtain ⟨body', hnext, hbody', hcodec, hending⟩ := Reader.readHeader_got hread
  obtain rfl := Option.some.inj (hbody'.symm.trans hbody)
  rw [h.hears.codec_eq] at hnext
  obtain ⟨hnumber, hnew⟩ := hexpects _ _ hnext
  obtain ⟨n, call, hcall, hseq, hpending⟩ := h.pending_of_expected hnumber hnew
  have hnonzero : call.seq ≠ 0 := by
    intro h0
    rw [← hseq, h0] at hnumber
    exact absurd hnumber.1 (Nat.lt_irrefl 0)
  have hheard : heard (log ++ [.heard (hd, body')]) = heard log ++ [(hd, body')] :=
    heard_append log _
  have hsent : sent (log ++ [.heard (hd, body')]) = sent log := by
    rw [sent_append]
    exact List.append_nil _
  have hhears := Move.hears h.calm.receiving hread hbody hpending
  obtain rfl := Option.some.inj (hstep.symm.trans hhears.step)
  refine ⟨⟨h.calm.receiving, h.calm.closing, h.calm.lost, h.calm.closeRequested,
    h.calm.closeWaiting⟩, hbooks, h.issued.quiet rfl rfl, h.speaks.quiet hlater rfl rfl rfl rfl,
    ?_⟩
  refine ⟨hcodec.trans h.hears.codec_eq, hending.trans h.hears.ending, ?_, ?_, ?_, ?_⟩
  · have hsplits := h.hears.splits.snoc hnext
    rw [← List.append_nil (arrivals log)] at hsplits
    rw [hheard, arrivals_append]
    exact hsplits
  · intro m hm
    rw [hheard] at hm
    rw [hsent]
    rcases List.mem_append.mp hm with hm | hm
    · exact h.hears.numbered m hm
    · obtain rfl := List.mem_singleton.mp hm
      exact hnumber
  · rw [hheard, List.map_append, List.nodup_append]
    refine ⟨h.hears.once, by simp, ?_⟩
    intro a ha b hb
    obtain ⟨m, hm, rfl⟩ := List.mem_map.mp ha
    obtain rfl : b = hd.seq := by simpa using hb
    exact hnew m hm
  · intro k call' hk
    have hresults := h.hears.results hk
    have hmatch : n = k ↔ hd.seq = call'.seq := hseq ▸ h.books.eq_iff_seq hcall hk hnonzero
    rw [resultsOf_complete, hheard, List.filter_append, List.map_append]
    refine congrArg₂ (· ++ ·) hresults ?_
    by_cases hkn : n = k
    · simp [hkn, hmatch.mp hkn]
    · simp [hkn, mt hmatch.mpr hkn]

theorem Traced.read (h : Traced codec opening log c) (hstep : c.step .read = some c')
    (hfew : c.calls.length < numbers) (hexpects : Expects codec log c) (hfront : ∃ t m rest,
      Message.next? codec (c.reader.bytes ++ t) = some (m, rest)) :
    Traced codec opening (log ++ c.events .read) c' := by
  have hlater : Later c c' := Later.step hstep
  have hbooks := h.books.step hstep hfew
  cases move_of_step hstep with
  | waits _ hread =>
    obtain ⟨-, hbytes, hcodec, -, hending⟩ := Reader.readHeader_waits hread
    have hevents : c.events .read = [] := by simp only [events, hread]
    have hspeaks := h.speaks.quiet hlater (congrArg sent hevents) rfl rfl rfl
    rw [hevents, List.append_nil] at hspeaks ⊢
    refine ⟨⟨h.calm.receiving, h.calm.closing, h.calm.lost, h.calm.closeRequested,
      h.calm.closeWaiting⟩, hbooks, ⟨h.issued.length, h.issued.argument⟩, hspeaks, ?_⟩
    exact ⟨hcodec.trans h.hears.codec_eq, hending.trans h.hears.ending, hbytes ▸ h.hears.splits,
      h.hears.numbered, h.hears.once, h.hears.results⟩
  | fails _ hread =>
    -- nothing is wrong with what has arrived
    rw [← h.hears.codec_eq] at hfront
    exact (Reader.not_failed_of_front hread h.hears.ending hfront).elim
  | hears _ hread hbody | ignores _ hread hbody =>
    rw [events_read hread hbody]
    exact h.hear hstep hfew hread hbody hexpects

/-! ## All steps -/

/-- **Every step leaves the client as the events say**, if it leaves it in use. -/
theorem Traced.step (h : Traced codec opening log c) {a : Action} (hstep : c.step a = some c')
    (hpeaceful : a.isPeaceful) (hfew : c.calls.length < numbers)
    (hencodes : ∀ method argument, a = .issue method argument →
      ∃ body, codec.encode argument.shape argument.value = .ok body)
    (hfits : ∀ m ∈ sent (log ++ c.events a), Message.Fits codec m)
    (hexpects : Expects codec log c)
    (hfront : ∃ t m rest, Message.next? codec (c.reader.bytes ++ t) = some (m, rest)) :
    Traced codec opening (log ++ c.events a) c' := by
  cases a with
  | issue method argument =>
    obtain ⟨body, hbody⟩ := hencodes method argument rfl
    exact h.issue hstep hfew hbody
  | register n => exact h.register hstep hfew
  | write => exact h.write hstep hfew hfits
  | receive piece =>
    obtain rfl := Option.some.inj hstep
    exact h.receive piece
  | read => exact h.read hstep hfew hexpects hfront
  | noticeClose =>
    cases move_of_step hstep with
    | notices _ hasked => simp [h.calm.closeRequested] at hasked
  | terminate =>
    cases move_of_step hstep with
    | tells hending => simp [h.calm.receiving] at hending
  | finishClose =>
    cases move_of_step hstep with
    | finishes hwaits => simp [h.calm.closeWaiting] at hwaits
  | _ => cases hpeaceful

/-- A client that has just been connected. -/
theorem Traced.init {codec : Codec} {sink sink' : Sink} {c : Client}
    (hconnect : connect (.forCodec codec) {} sink = (.ok c, sink'))
    (haccepts : sink.behaviour.Accepts)
    (hfresh : sink.taken = [] ∧ sink.shutdowns = 0) :
    Traced codec (Options.line codec ++ [0x0a]) [] c := by
  obtain ⟨s, hs, htaken, hbehaviour, hshutdowns⟩ :=
    Sink.send_accepts haccepts (Options.line codec ++ [0x0a])
  simp only [connect, Negotiation.send, Options.toLine_forCodec, hs] at hconnect
  obtain ⟨rfl, -⟩ : _ = c ∧ _ := by simpa using hconnect
  refine ⟨⟨rfl, rfl, rfl, rfl, rfl⟩, Coherent.init _ _, ⟨rfl, by simp⟩, ?_, ?_⟩
  · refine ⟨rfl, ⟨rfl, hbehaviour ▸ haccepts⟩, hshutdowns.trans hfresh.2, ?_, by simp [sent], ?_,
      rfl⟩
    · rw [htaken, hfresh.1, List.nil_append]
      simp [sent]
    · intro n body hholder
      cases hholder
  · exact ⟨rfl, rfl, .nil _, by simp [heard], List.nodup_nil, by simp⟩

end Client

end WireCall
