import WireCall.Proofs.Client.Closing

/-!
# Which calls may be tried again when the connection fails

The connection fails when the loop comes upon the end of the stream or an error in it, or when the
stream does not take the frame of a call (`Client.Breaks`). A call that is pending at that moment
may still be completed by a response under its own number that has arrived before. Any other one
fails, and its error says whether it may be tried again on a new connection: it says so just if it
was not the frame of this very call that could not be written (`Client.broken_calls_settled`).

That one call gets the error of the protocol in which the failure of the stream is wrapped, and this
is retryable only for a clean end of the stream. So nobody is told that the call may be tried again
(`Client.unwritten_call_not_retryable`).
-/

namespace WireCall

/-- The clean end of a stream is not what a write meets with. -/
theorem Writer.isEnd_of_writeEncoded {w : Writer} {h : Header} {body : Bytes} {e : WireError}
    (hwrite : (w.writeEncoded h body).1 = .error e) : e.isEnd = false := by
  rw [writeEncoded] at hwrite
  split at hwrite
  · rename_i e' hraw
    obtain rfl := Except.error.inj hwrite
    have hstream := Message.ofStream_of_encodeRaw hraw
    cases e' with
    | connectionClosed => cases hstream
    | _ => rfl
  · rw [writeFrame] at hwrite
    split at hwrite
    · obtain rfl := Except.error.inj hwrite
      rfl
    · split at hwrite
      · cases hwrite
      · obtain rfl := Except.error.inj hwrite
        rfl

namespace Client

variable {c c' c'' : Client} {a : Action} {last : List Action} {seq : UInt64} {n : Nat}

/-! ## Failures of the connection -/

/-- **How the connection fails**, by the step that finds it out. -/
inductive Breaks (c : Client) : Action → Prop
  /-- the stream is over, or cannot be read any further -/
  | read {e : WireError} {r : Reader} (hreading : c.receiving = .reading)
      (hfails : c.reader.readHeader = (.failed e, r)) : Breaks c .read
  /-- the stream does not take the frame of a call -/
  | write {n : Nat} {body : Bytes} {call : Call} {e : IoError} {w : Writer}
      (hholder : c.holder = some (n, body)) (hcall : c.calls[n]? = some call)
      (hfails : c.writer.writeEncoded ⟨call.method, call.seq, ""⟩ body = (.error (.io e), w)) :
      Breaks c .write

/-- **A failure stops the loop, or settles all calls at once.** -/
theorem Breaks.stops (h : c.Breaks a) (hstep : c.step a = some c') :
    (c.receiving = .reading ∧ c.incident a = [] ∧ ∃ e, c'.receiving = .ending (.wire e)) ∨
      ∃ own e, c.incident a = [.unwritten own e] := by
  cases h with
  | @read e r hreading hfails =>
    obtain rfl := Option.some.inj (hstep.symm.trans (Move.fails hreading hfails).step)
    exact .inl ⟨hreading, by simp only [incident, hfails], e, rfl⟩
  | @write n body call e w hholder hcall hfails =>
    exact .inr ⟨call.seq, .io e, by simp only [incident, hholder, hcall, hfails]⟩

theorem incidents_cons (hstep : c.step a = some c') :
    c.incidents (a :: last) = c.incident a ++ c'.incidents last := by
  simp only [incidents, Run.log, hstep]

/-- After a failure no call is decided upon by a loop that ends because it has been asked to. -/
theorem Breaks.reason_ne (h : c.Breaks a) (hstep : c.step a = some c')
    (hlast : c'.run last = some c'') {reason : CallError}
    (hi : decisive seq (c.incidents (a :: last)) = some (.tornDown reason)) :
    reason ≠ .shutdown := by
  rw [incidents_cons hstep] at hi
  rcases h.stops hstep with ⟨-, hnone, e, hstopped⟩ | ⟨own, e, hone⟩
  · rw [hnone, List.nil_append] at hi
    obtain rfl := (reason_of_stopped hstopped hlast).2 reason (List.mem_of_find?_eq_some hi)
    nofun
  · -- the request that was not written has decided upon all of them
    rw [hone, decisive, List.singleton_append, List.find?_cons_of_pos rfl] at hi
    cases hi

/-! ## What decides -/

/-- The error of an incident is that of a write only if a write has failed with it. -/
theorem isEnd_of_unwritten {own : UInt64} {e : WireError} (hmem : .unwritten own e ∈ c.incident a) :
    e.isEnd = false := by
  cases a with
  | write =>
    simp only [incident] at hmem
    split at hmem
    · split at hmem
      · split at hmem
        · rename_i hwrite
          obtain ⟨-, rfl⟩ := Incident.unwritten.inj (List.mem_singleton.mp hmem)
          exact Writer.isEnd_of_writeEncoded hwrite
        · cases hmem
      · cases hmem
    · cases hmem
  | register n | read | terminate =>
    simp only [incident] at hmem
    repeat' split at hmem
    all_goals simp at hmem
  | _ => cases hmem

/-- **As long as the numbers do not run out, no pending call is dropped** in favour of another one
that gets its number. -/
theorem decisive_ne_taken (horderly : c.Orderly) (hmem : (seq, n) ∈ c.pending)
    {actions : List Action} (hrun : c.run actions = some c') (hcoherent : c'.Coherent) :
    decisive seq (c.incidents actions) ≠ some (.taken seq) := by
  intro hi
  have hfares := fares_of_run horderly hmem hrun
  rw [findSome?_verdict, hi, Option.bind_some, Incident.verdict, if_pos rfl] at hfares
  cases hfares with
  | settled hcall habsent hresults =>
    obtain ⟨call, hcall, hnot⟩ := hcall
    cases hcoherent.standing hcall with
    | waits _ hwaits =>
      rw [hnot] at hwaits
      cases hwaits
    | pends hpends => exact habsent _ hpends rfl
    | done _ _ hone =>
      obtain ⟨r, hr⟩ := hone
      cases hr.symm.trans hresults

/-- **What an incident gives a call** that is not lost by a shutdown: the response, or an error that
is retryable unless its own request could not be written. -/
theorem retryable_of_verdict {i : Incident} {results : List (Except CallError Bytes)}
    (hverdict : i.verdict seq = some results) (htaken : i ≠ .taken seq)
    (hreason : ∀ reason, i = .tornDown reason → reason ≠ .shutdown)
    (hwrites : ∀ own e, i = .unwritten own e → e.isEnd = false) :
    (∃ m, i = .heard m ∧ m.1.seq = seq ∧ results = [Message.outcome m]) ∨
      ∃ x, results = [.error x] ∧ (x.isRetryable = true ↔ ∀ e, i ≠ .unwritten seq e) := by
  cases i with
  | heard m =>
    rw [Incident.verdict] at hverdict
    split at hverdict
    · rename_i hseq
      exact .inl ⟨m, rfl, hseq, (Option.some.inj hverdict).symm⟩
    · cases hverdict
  | tornDown reason =>
    refine .inr ⟨_, (Option.some.inj hverdict).symm, iff_of_true ?_ (by rintro e ⟨⟩)⟩
    cases reason with
    | shutdown => exact absurd rfl (hreason _ rfl)
    | _ => rfl
  | unwritten own e =>
    refine .inr ⟨_, (Option.some.inj hverdict).symm, ?_⟩
    by_cases hown : own = seq
    · subst hown
      rw [if_pos rfl, CallError.isRetryable, hwrites own e rfl]
      exact iff_of_false Bool.false_ne_true fun h => h e rfl
    · rw [if_neg hown]
      refine iff_of_true rfl ?_
      rintro e' heq
      exact hown (Incident.unwritten.inj heq).1
  | taken other =>
    rw [Incident.verdict] at hverdict
    split at hverdict
    · rename_i hseq
      exact absurd (congrArg _ hseq) htaken
    · cases hverdict

/-- **What becomes of a call that is pending when the connection fails.** -/
theorem Breaks.settled (h : c.Breaks a) (horderly : c.Orderly) (hstep : c.step a = some c')
    (hlast : c'.run last = some c'') (hcoherent : c''.Coherent) (hmem : (seq, n) ∈ c.pending) :
    (decisive seq (c.incidents (a :: last)) = none → c''.resultsOf n = []) ∧
    ∀ i, decisive seq (c.incidents (a :: last)) = some i →
      (∃ m, i = .heard m ∧ m.1.seq = seq ∧ c''.resultsOf n = [Message.outcome m]) ∨
      ∃ x, c''.resultsOf n = [.error x] ∧ (x.isRetryable = true ↔ ∀ e, i ≠ .unwritten seq e) := by
  have hall : c.run (a :: last) = some c'' := Run.cons_eq_some.mpr ⟨c', hstep, hlast⟩
  have hresults := ((fares_of_run horderly hmem hall).results (horderly.run hall)).1
  rw [findSome?_verdict] at hresults
  refine ⟨?_, ?_⟩
  · intro hnone
    rw [hresults, hnone]
    rfl
  · intro i hi
    have hdecides := List.find?_some hi
    obtain ⟨results, hverdict⟩ := Option.isSome_iff_exists.mp hdecides
    rw [hresults, hi, Option.bind_some, hverdict, Option.getD_some]
    refine retryable_of_verdict hverdict ?_ ?_ ?_
    · rintro rfl
      exact decisive_ne_taken horderly hmem hall hcoherent hi
    · rintro reason rfl
      exact h.reason_ne hstep hlast hi
    · rintro own e rfl
      obtain ⟨m, b, -, hincident⟩ := Run.mem_log (List.mem_of_find?_eq_some hi)
      exact isEnd_of_unwritten hincident

/-! ## The main statement -/

/-- Coming to the end issues no call. -/
theorem calls_of_told {ending : List Action} (hown : ∀ a ∈ ending, a = .write ∨ a = .terminate)
    (hrun : c.run ending = some c') : c'.calls = c.calls := by
  induction ending generalizing c with
  | nil =>
    obtain rfl := Option.some.inj hrun
    rfl
  | cons a ending ih =>
    obtain ⟨m, hstep, hrun⟩ := Run.cons_eq_some.mp hrun
    rw [ih (fun b hb => hown b (List.mem_cons_of_mem a hb)) hrun]
    rcases hown a List.mem_cons_self with rfl | rfl
    · cases move_of_step hstep with
      | writes => rfl
      | @breaks _ _ call writer e =>
        obtain ⟨failed, habort⟩ := exists_abort { c with writer, holder := none } call.seq e
        rw [habort]
    · cases move_of_step hstep
      rfl

/-- **What becomes of the calls that are pending when the connection fails**, whatever happens
afterwards, as long as there are fewer calls than numbers:

- a call has no result as long as nothing has decided upon it; then it has one, which is the
  response under its own number, or an error that is retryable just if it is not the request of this
  very call that could not be written;
- the client can come to its end, without anyone else, and then each of the calls has its result. -/
theorem broken_calls_settled {o : Options} {source : Source} {sink sink' : Sink} {c₀ : Client}
    {first : List Action} (hconnect : connect o source sink = (.ok c₀, sink'))
    (hfirst : c₀.run first = some c) (hbreaks : c.Breaks a) (hstep : c.step a = some c')
    (hlast : c'.run last = some c'') (hfew : c''.calls.length < numbers) :
    (∀ seq n, (seq, n) ∈ c.pending →
      (decisive seq (c.incidents (a :: last)) = none → c''.resultsOf n = []) ∧
      ∀ i, decisive seq (c.incidents (a :: last)) = some i →
        (∃ m, i = .heard m ∧ m.1.seq = seq ∧ c''.resultsOf n = [Message.outcome m]) ∨
        ∃ x, c''.resultsOf n = [.error x] ∧
          (x.isRetryable = true ↔ ∀ e, i ≠ .unwritten seq e)) ∧
    ∃ ending c₃, (∀ a ∈ ending, a = .write ∨ a = .terminate) ∧ c''.run ending = some c₃ ∧
      ∀ seq n, (seq, n) ∈ c.pending → ∃ r, c₃.resultsOf n = [r] := by
  have horderly : c.Orderly := Orderly.of_connect hconnect hfirst
  have coherent : ∀ {actions : List Action} {d : Client}, c.run actions = some d →
      d.calls.length < numbers → d.Coherent := by
    intro actions d hrun hd
    obtain ⟨r, w, rfl⟩ := exists_of_connect hconnect
    exact (Coherent.init r w).run (Run.append_eq_some.mpr ⟨c, hfirst, hrun⟩) hd
  have hall : c.run (a :: last) = some c'' := Run.cons_eq_some.mpr ⟨c', hstep, hlast⟩
  refine ⟨fun seq n hmem => hbreaks.settled horderly hstep hlast (coherent hall hfew) hmem, ?_⟩
  -- what has been decided upon has a result
  have decided : ∀ {more : List Action} {d : Client}, c'.run more = some d →
      d.calls.length < numbers → (∀ seq, ∃ i, decisive seq (c.incidents (a :: more)) = some i) →
      ∀ seq n, (seq, n) ∈ c.pending → ∃ r, d.resultsOf n = [r] := by
    intro more d hmore hd hdecides seq n hmem
    obtain ⟨i, hi⟩ := hdecides seq
    have hcoherent := coherent (Run.cons_eq_some.mpr ⟨c', hstep, hmore⟩) hd
    rcases (hbreaks.settled horderly hstep hmore hcoherent hmem).2 i hi with
      ⟨m, -, -, hr⟩ | ⟨x, hr, -⟩
    · exact ⟨_, hr⟩
    · exact ⟨_, hr⟩
  rcases hbreaks.stops hstep with ⟨hreading, -, e, hstopped⟩ | ⟨own, e, hone⟩
  · have hnot : c''.receiving ≠ .reading := by
      rcases (reason_of_stopped hstopped hlast).1 with h | h <;> simp [h]
    obtain ⟨ending, c₃, hown, hending, hended⟩ := exists_told (horderly.run hall) hnot
    have hmore : c'.run (last ++ ending) = some c₃ := Run.append_eq_some.mpr ⟨c'', hlast, hending⟩
    refine ⟨ending, c₃, hown, hending, decided hmore ?_ ?_⟩
    · rw [calls_of_told hown hending]
      exact hfew
    · exact exists_decisive (by simp [hreading])
        (Run.cons_eq_some.mpr ⟨c', hstep, hmore⟩) hended
  · refine ⟨[], c'', nofun, rfl, decided hlast hfew fun seq => ⟨.unwritten own e, ?_⟩⟩
    rw [incidents_cons hstep, hone, decisive]
    exact List.find?_cons_of_pos rfl

/-- A stream that takes the negotiation line and one message, and then breaks. -/
def breakingSink : Sink where
  behaviour :=
    { SinkBehaviour.faithful with
      write := fun calls _ offered => if calls < 2 then .takes offered else .fails .broken }

/-- A call waits for its response, and another one has the right to write. -/
def oneUnderWay : List Action := oneCall ++ [.issue "Calc.Unit" ⟨.unit, ()⟩, .register 1]

/-- Whether the request of the holder cannot be written because of the stream. -/
def findsBroken (c : Client) : Bool :=
  match c.incident .write with
  | [.unwritten _ (.io _)] => true
  | _ => false

theorem Breaks.of_findsBroken (h : c.findsBroken = true) : c.Breaks .write := by
  unfold findsBroken at h
  cases hholder : c.holder with
  | none => simp [incident, hholder] at h
  | some p =>
    obtain ⟨n, body⟩ := p
    cases hcall : c.calls[n]? with
    | none => simp [incident, hholder, hcall] at h
    | some call =>
      cases hwrite : c.writer.writeEncoded ⟨call.method, call.seq, ""⟩ body with
      | mk answer w =>
        simp only [incident, hholder, hcall, hwrite] at h
        cases answer with
        | ok u => cases h
        | error e =>
          cases e with
          | io e => exact .write hholder hcall hwrite
          | _ => cases h

/-- The number of the request that could not be written. -/
def Incident.unwritten? : Incident → Option UInt64
  | .unwritten own _ => some own
  | _ => none

theorem broken_calls_settled_other :
    ∃ c₀ sink c c', connect .default {} breakingSink = (.ok c₀, sink) ∧
      c₀.run oneUnderWay = some c ∧ c.Breaks .write ∧ c.step .write = some c' ∧
      (1, 0) ∈ c.pending ∧ ∃ x, c'.resultsOf 0 = [.error x] ∧ x.isRetryable = true := by
  have hends : ((connect .default {} breakingSink).1.toOption.bind
      (run · oneUnderWay)).any (fun c : Client =>
        c.findsBroken && decide ((1, 0) ∈ c.pending) &&
          decide ((decisive 1 (c.incidents [.write])).bind Incident.unwritten? = some 2) &&
          (c.step .write).any fun c' => decide (c'.calls.length < numbers)) = true := by
    decide +kernel
  obtain ⟨c₀, sink, c, hconnect, hrun, hchecks⟩ := exists_run hends
  simp only [Bool.and_eq_true, decide_eq_true_eq] at hchecks
  obtain ⟨⟨⟨hbreaks, hmem⟩, hdecides⟩, hchecks⟩ := hchecks
  obtain ⟨c', hstep, hfew⟩ := (Option.any_eq_true _ _).mp hchecks
  replace hbreaks := Breaks.of_findsBroken hbreaks
  have hsettled := (broken_calls_settled hconnect hrun hbreaks hstep (rfl : c'.run [] = some c')
    (of_decide_eq_true hfew)).1 1 0 hmem
  refine ⟨c₀, sink, c, c', hconnect, hrun, hbreaks, hstep, hmem, ?_⟩
  obtain ⟨i, hi, hother⟩ := Option.bind_eq_some_iff.mp hdecides
  rcases hsettled.2 i hi with ⟨m, rfl, -⟩ | ⟨x, hx, hretryable⟩
  · cases hother
  · refine ⟨x, hx, hretryable.mpr ?_⟩
    rintro e rfl
    cases hother

/-- Whether the one result is an error that is not retryable. -/
def isFinal : List (Except CallError Bytes) → Bool
  | [.error x] => !x.isRetryable
  | _ => false

/-- **The call whose own request could not be written is not said to be retryable**, although it is
the stream that has failed. -/
theorem unwritten_call_not_retryable :
    ∃ c₀ sink c c', connect .default {} breakingSink = (.ok c₀, sink) ∧
      c₀.run oneUnderWay = some c ∧ c.isAvailable ∧ c.Breaks .write ∧ c.step .write = some c' ∧
      (2, 1) ∈ c.pending ∧ ∃ x, c'.resultsOf 1 = [.error x] ∧ x.isRetryable = false := by
  have hends : ((connect .default {} breakingSink).1.toOption.bind
      (run · oneUnderWay)).any (fun c : Client =>
        c.isAvailable && c.findsBroken && decide ((2, 1) ∈ c.pending) &&
          (c.step .write).any fun c' => isFinal (c'.resultsOf 1)) = true := by
    decide +kernel
  obtain ⟨c₀, sink, c, hconnect, hrun, hchecks⟩ := exists_run hends
  simp only [Bool.and_eq_true, decide_eq_true_eq] at hchecks
  obtain ⟨⟨⟨havailable, hbreaks⟩, hmem⟩, hchecks⟩ := hchecks
  obtain ⟨c', hstep, hresult⟩ := (Option.any_eq_true _ _).mp hchecks
  refine ⟨c₀, sink, c, c', hconnect, hrun, havailable, Breaks.of_findsBroken hbreaks, hstep, hmem,
    ?_⟩
  unfold isFinal at hresult
  split at hresult
  · rename_i x hx
    exact ⟨x, hx, by simpa using hresult⟩
  · cases hresult

end Client

end WireCall
