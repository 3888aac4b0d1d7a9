import WireCall.Proofs.Network.Calls

/-!
# How the failure of a handler is seen

The text of a failure travels in the header of the response, where an empty text stands for no
failure. So the caller of a handler that has failed sees its text whatever reply was expected, if
that text is not empty; a failure without a text is taken for a unit value
(`Network.failure_seen_iff`).
-/

namespace WireCall

namespace Network

open Serving (Concludes requests invocations)

variable {codec : Codec} {net₀ net' : Network} {actions : List Action}
  {asked : List Client.Event} {done : List Serving.Event}

/-- The result of a call whose handler has failed, when it is decoded as a reply of any shape. -/
theorem decodeReply_outcome (codec : Codec) (h : Header) (why : String) (s : Shape) :
    Client.decodeReply codec s (Message.outcome (Response.make codec h (.error why)).message) =
      .error (.server why) ↔ why ≠ "" := by
  constructor
  · rintro hseen rfl
    rw [Response.outcome_blank] at hseen
    simp only [Client.decodeReply] at hseen
    cases hdecode : codec.decode s (Response.unitBody codec) with
    | ok a =>
      rw [hdecode] at hseen
      cases hseen
    | error e =>
      rw [hdecode] at hseen
      cases hseen
  · intro hwhy
    rw [Response.outcome_error codec h hwhy]
    rfl

/-- **The failure of a handler is seen as a failure just if its text is not empty.** In a session
with fewer calls than numbers, whose arguments can be encoded and whose messages go into frames,
take a call whose handler has failed with some text, and whatever shape its caller expects of the
reply. A result of the call is the error with this text just if the text is not empty; otherwise it
is a unit value. Where nothing is left to do, the call has its result. -/
theorem failure_seen_iff (hsession : Session codec net₀ net' actions asked done)
    (hmoderate : Moderate codec asked done) :
    ∃ l, net'.lines[net₀.lines.length]? = some l ∧
      ∀ n call argument t q p memory why, l.client.calls[n]? = some call →
        Assigned codec done call argument t q → (p, memory) ∈ invocations done t →
        (p.plan memory).outcome = .fails why →
          (∀ r ∈ l.client.resultsOf n,
            (∀ s : Shape, Client.decodeReply codec s r = .error (.server why) ↔ why ≠ "") ∧
            (why = "" → r = .ok (Response.unitBody codec))) ∧
          (net'.Rests l → ∃ r, l.client.resultsOf n = [r]) := by
  have h := hsession.joined hmoderate
  obtain ⟨l, conn, hl, -, -, hlink⟩ := h.link
  refine ⟨l, hl, ?_⟩
  intro n call argument t q p memory why hcall hassigned hinvoked hfails
  constructor
  · intro r hr
    obtain ⟨-, argument', t', q', result, -, hassigned', hresult, rfl⟩ :=
      h.result hmoderate.fit hl hcall hr
    -- the two tasks are the same, as the number of the call is that of its task
    obtain rfl : t = t' := by
      have := hassigned.number.symm.trans hassigned'.number
      omega
    obtain rfl := Option.some.inj (hassigned.request.symm.trans hassigned'.request)
    obtain rfl : result = .error why := by
      unfold Concludes at hresult
      split at hresult
      · rw [hresult.1] at hinvoked
        cases hinvoked
      · obtain ⟨memory', hone, rfl⟩ := hresult
        rw [hone] at hinvoked
        obtain ⟨rfl, rfl⟩ := Prod.mk.inj (List.mem_singleton.mp hinvoked)
        rw [Prepared.result, hfails]
        rfl
    refine ⟨decodeReply_outcome codec _ why, ?_⟩
    rintro rfl
    exact Response.outcome_blank codec _
  · intro hrests
    exact h.completed hmoderate.fit hl hrests (List.getElem?_eq_some_iff.mp hcall).1

/-! ## Failures with and without a text -/

/-- A service with a method that fails with the given text. -/
def failing (why : String) : Service :=
  (Service.named "Calc").method
    (.make "Fail" ⟨"()", .unit⟩ ⟨"()", .unit⟩ fun _ => { outcome := .fails why })

/-- A call of that method. -/
def failingCall : List Action :=
  [.server (.accept 0), .server (.serve 0), .client 0 (.issue "Calc.Fail" ⟨.unit, ()⟩),
    .client 0 (.register 0), .client 0 .write, .carryUp 0 1000, .server (.negotiate 0),
    .server (.read 0), .server (.call 0 0), .server (.respond 0 0), .carryDown 0 1000,
    .client 0 .read]

/-- Whether a handler that has been called for a task has failed with the given text. -/
def hasFailed (why : String) (done : List Serving.Event) (t : Nat) : Bool :=
  (invocations done t).any fun x =>
    match (x.1.plan x.2).outcome with
    | .fails why' => why' = why
    | _ => false

theorem exists_of_hasFailed {why : String} {t : Nat} (h : hasFailed why done t) :
    ∃ p memory, (p, memory) ∈ invocations done t ∧ (p.plan memory).outcome = .fails why := by
  obtain ⟨⟨p, memory⟩, hmem, hfails⟩ := List.any_eq_true.mp h
  refine ⟨p, memory, hmem, ?_⟩
  simp only at hfails
  split at hfails
  · rename_i why' heq
    rw [heq, of_decide_eq_true hfails]
  · cases hfails

/-- Whether a call has been completed once, with an empty reply. -/
def hasReplied : List (Except CallError Bytes) → Bool
  | [.ok []] => true
  | _ => false

theorem eq_of_hasReplied {results : List (Except CallError Bytes)} (h : hasReplied results) :
    results = [.ok []] := by
  unfold hasReplied at h
  split at h
  · rfl
  · cases h

theorem failure_seen_iff_no :
    ∃ net' asked done l r, Session .compact (offering (failing "no")) net' failingCall asked done ∧
      net'.lines[0]? = some l ∧ l.client.resultsOf 0 = [r] ∧
      Client.decodeReply .compact .text r = .error (.server "no") := by
  have hchecks : (sessionOf (offering (failing "no")) {} failingCall).any
      (fun (net', l, asked, done) =>
        decide (Moderate .compact asked done) && hasFailed "no" done 0 && decide (net'.Rests l) &&
          decide (l.client.calls.length = 1) && decide ((requests done).length = 1) &&
          !isTurnedAway net'.server.connections[0]?) = true := by
    decide +kernel
  obtain ⟨⟨net', l, asked, done⟩, hsome, hchecks⟩ := (Option.any_eq_true _ _).mp hchecks
  simp only [Bool.and_eq_true, decide_eq_true_eq, Bool.not_eq_true'] at hchecks
  obtain ⟨⟨⟨⟨⟨hmoderate, hfailed⟩, hrests⟩, hcalls⟩, hrequests⟩, hkept⟩ := hchecks
  obtain ⟨hsession, hl⟩ :=
    session_of_eq_some rfl (rfl : _ = Options.forCodec .compact) (by decide +kernel) hsome hkept
  -- the only request is that of the only call
  obtain ⟨n, call, argument, hcall, -, hassigned⟩ :=
    (hsession.joined hmoderate).assigned hmoderate.fit hl
      (List.getElem?_eq_getElem (show 0 < (requests done).length by omega))
  obtain rfl : n = 0 := by
    have := (List.getElem?_eq_some_iff.mp hcall).1
    omega
  obtain ⟨p, memory, hinvoked, hfails⟩ := exists_of_hasFailed hfailed
  obtain ⟨l', hl', hseen⟩ := failure_seen_iff hsession hmoderate
  obtain rfl := Option.some.inj (hl.symm.trans hl')
  obtain ⟨hresults, hcompleted⟩ :=
    hseen 0 call argument 0 _ p memory "no" hcall hassigned hinvoked hfails
  obtain ⟨r, hr⟩ := hcompleted hrests
  have hresult := hresults r (hr ▸ List.mem_cons_self)
  exact ⟨net', asked, done, l, r, hsession, hl, hr, (hresult.1 .text).mpr (by decide)⟩

/-- A handler has failed with an empty text, and its caller has a reply. -/
theorem blank_failure_replies :
    ∃ net' asked done l p memory,
      Session .compact (offering (failing "")) net' failingCall asked done ∧
      Moderate .compact asked done ∧ net'.lines[0]? = some l ∧
      (p, memory) ∈ invocations done 0 ∧ (p.plan memory).outcome = .fails "" ∧
      l.client.resultsOf 0 = [.ok []] ∧ Client.decodeReply .compact .unit (.ok []) = .ok () := by
  have hchecks : (sessionOf (offering (failing "")) {} failingCall).any
      (fun (net', l, asked, done) =>
        decide (Moderate .compact asked done) && hasFailed "" done 0 &&
          hasReplied (l.client.resultsOf 0) &&
          !isTurnedAway net'.server.connections[0]?) = true := by
    decide +kernel
  obtain ⟨⟨net', l, asked, done⟩, hsome, hchecks⟩ := (Option.any_eq_true _ _).mp hchecks
  simp only [Bool.and_eq_true, decide_eq_true_eq, Bool.not_eq_true'] at hchecks
  obtain ⟨⟨⟨hmoderate, hfailed⟩, hreplied⟩, hkept⟩ := hchecks
  obtain ⟨hsession, hl⟩ :=
    session_of_eq_some rfl (rfl : _ = Options.forCodec .compact) (by decide +kernel) hsome hkept
  obtain ⟨p, memory, hinvoked, hfails⟩ := exists_of_hasFailed hfailed
  exact ⟨net', asked, done, l, p, memory, hsession, hmoderate, hl, hinvoked, hfails,
    eq_of_hasReplied hreplied, rfl⟩

end Network

end WireCall
