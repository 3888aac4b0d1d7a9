import WireCall.Proofs.Network.Results

/-!
# Every call is answered by its own handler

A *session* of a client (`Network.Session`) begins when it connects to the server, and lasts as long
as neither of them stops using the connection. Whatever happens in a session and in whatever order,
a handler is called once for each call that can be made, with the argument of that call, and each
call is completed at most once, with what its own handler has come to. Where nothing is left to do,
each call has been completed (`Network.calls_answered`).
-/

namespace WireCall

/-- Whether a value is read back from what it is encoded to. -/
def Codec.RoundTrips (c : Codec) (d : Datum) : Prop :=
  ∃ body, c.encode d.shape d.value = .ok body ∧ c.decode d.shape body = .ok d.value

/-- Whether a handler ends properly: with a reply that is read back, with a text that is not empty,
or by breaking off. -/
def Outcome.Proper (c : Codec) {s : Shape} : Outcome s.Value → Prop
  | .replies a => c.RoundTrips ⟨s, a⟩
  | .fails why => why ≠ ""
  | .panics => True

/-- **What a call comes to** that is made with the memory of its service: the reply of the handler,
in its encoded form, or the text of its failure. -/
def Prepared.Yields (c : Codec) (request : String) (p : Prepared) (memory : Nat)
    (r : Except CallError Bytes) : Prop :=
  match (p.plan memory).outcome with
  | .replies a => ∃ body, r = .ok body ∧ c.decode p.method.reply.shape body = .ok a
  | .fails why => r = .error (.server why)
  | .panics => r = .error (.server ("rpc server: method " ++ request ++ " panicked"))

/-- Whether a prepared call has the given argument, if its method takes such arguments. -/
def Prepared.Takes (c : Codec) (p : Prepared) (argument : Datum) : Prop :=
  c.RoundTrips argument → p.method.argument.shape = argument.shape →
    ⟨p.method.argument.shape, p.argument⟩ = argument

/-- **How a call is settled** by the calls of handlers made for it: none if its method cannot be
resolved or its argument cannot be decoded, and otherwise one, with its own argument. -/
inductive Settles (registry : Registry) (c : Codec) (method : String) (argument : Datum)
    (body : Bytes) : List (Prepared × Nat) → Except CallError Bytes → Prop
  | refused {e : ServeError} (hprepare : registry.prepare c method body = .error e) :
      Settles registry c method argument body [] (.error (.server e.message))
  | called {p : Prepared} {n : UInt64} {memory : Nat} {r : Except CallError Bytes}
      (hprepare : registry.prepare c method body = .ok p) (htakes : p.Takes c argument)
      (hyields : p.Yields c method memory r) :
      Settles registry c method argument body [(p.counting n, memory)] r

theorem append_ne_empty {a : String} (h : a ≠ "") (b : String) : a ++ b ≠ "" := by
  simp [h]

theorem ServeError.message_ne_empty (e : ServeError) : e.message ≠ "" := by
  cases e with
  | methodNotFound service method =>
    exact append_ne_empty (append_ne_empty (append_ne_empty (append_ne_empty (by decide) _) _) _) _
  | invalidServiceName name | duplicateService name | serviceNotFound name =>
    exact append_ne_empty (append_ne_empty (by decide) _) _
  | handshakeTimeout => decide
  | _ => exact append_ne_empty (by decide) _

/-- What a method answers does not depend on how often it has been called. -/
theorem Method.answer_counting (m : Method) (n : UInt64) (c : Codec) (request : String)
    (o : Outcome m.reply.shape.Value) :
    answer { m with calls := n } c request o = m.answer c request o := by
  cases o <;> rfl

namespace Registry

variable {registry : Registry} {c : Codec} {method : String} {body : Bytes} {p : Prepared}

/-- The argument of a prepared call is what the body is decoded to. -/
theorem decode_of_prepare (h : registry.prepare c method body = .ok p) :
    c.decode p.method.argument.shape body = .ok p.argument := by
  simp only [prepare, bind, Except.bind] at h
  split at h
  · cases h
  rename_i m _
  split at h
  · cases h
  rename_i argument hdecode
  obtain rfl := Except.ok.inj h
  exact ok_of_mapError hdecode

/-- A call is prepared with the argument that was encoded. -/
theorem takes_of_prepare (h : registry.prepare c method body = .ok p) {argument : Datum}
    (hencode : c.encode argument.shape argument.value = .ok body) : p.Takes c argument := by
  rintro ⟨body', hencode', hdecode⟩ hshape
  obtain rfl := Except.ok.inj (hencode.symm.trans hencode')
  have hargument := decode_of_prepare h
  obtain ⟨shape, value⟩ := argument
  obtain ⟨service, m, arg⟩ := p
  simp only at hshape hargument hdecode ⊢
  subst hshape
  rw [Except.ok.inj (hdecode.symm.trans hargument)]

end Registry

namespace Network

open Serving (Concludes answers requests questions written invocations)
open Client (issues sent arrivals heard)

/-- **A session** of a client: on a network that has been in use in any way, the client connects
with the options of a codec, and then neither the client nor its connection is closed, and the
server is not shut down. -/
structure Session (codec : Codec) (net₀ net' : Network) (actions : List Action)
    (asked : List Client.Event) (done : List Serving.Event) : Prop where
  reached : ∃ (net : Network) (before : List Action), net.lines = [] ∧ net.run before = some net₀
  ran : ∃ (d : Dialing) (net₁ : Network), d.options = .forCodec codec ∧
    net₀.step (.dial d) = some net₁ ∧ net₁.run actions = some net' ∧
    asked = net₁.clientHistory net₀.lines.length actions ∧
    done = net₁.serverHistory net₀.server.connections.length actions
  peaceful : ∀ a ∈ actions, a.isPeaceful net₀.lines.length net₀.server.connections.length
  kept : net'.server.connections[net₀.server.connections.length]? ≠ some .turnedAway

variable {codec : Codec} {net₀ net' : Network} {actions : List Action}
  {asked : List Client.Event} {done : List Serving.Event} {registry : Registry} {k i : Nat}

theorem Session.joined (h : Session codec net₀ net' actions asked done)
    (hmoderate : Moderate codec asked done) :
    Joined codec net₀.server.registry net₀.lines.length net₀.server.connections.length asked done
      net' := by
  obtain ⟨net, before, hempty, hbefore⟩ := h.reached
  obtain ⟨d, net₁, hoptions, hdial, hrun, rfl, rfl⟩ := h.ran
  have hleads : net₀.Leads := Leads.of_run hempty hbefore
  -- a dial leaves the registry of the server
  have hjoined := joined_of_dial hleads hoptions hdial
  exact joined_of_run hjoined hrun h.peaceful hmoderate h.kept

/-- The calls of a session are those that its actions issue. -/
theorem Session.issues_eq (h : Session codec net₀ net' actions asked done) :
    issues asked = actions.filterMap (issuedOn? net₀.lines.length) := by
  obtain ⟨d, net₁, -, -, hrun, rfl, -⟩ := h.ran
  exact issues_clientHistory hrun

/-- What a request comes to settles its call, if the handler ends properly. -/
theorem settles_of_concludes (h : Joined codec registry k i asked done net') {t : Nat}
    {q : Request × Bytes} {call : Call} {argument : Datum}
    (hassigned : Assigned codec done call argument t q) {result : Except String Bytes}
    (hresult : Concludes codec (invocations done t) q.1 result)
    (hproper : ∀ p memory, (p, memory) ∈ invocations done t →
      (p.plan memory).outcome.Proper codec) :
    Settles registry codec call.method argument q.2 (invocations done t)
      (Message.outcome (Response.make codec q.1.header result).message) := by
  obtain ⟨r, halike, hcall⟩ := h.prepared q (List.mem_of_getElem? hassigned.request)
  have hmethod : q.1.header.method = call.method := by rw [hassigned.header]
  have herror : q.1.header.error = "" := by rw [hassigned.header]
  rw [hmethod] at hcall
  rcases halike.prepare codec call.method q.2 with ⟨e, he, he'⟩ | ⟨p, n, hp, hp'⟩
  · simp only [Concludes, hcall, he'] at hresult
    obtain ⟨hnone, rfl⟩ := hresult
    rw [hnone, Response.outcome_error codec _ e.message_ne_empty]
    exact .refused he
  · simp only [Concludes, hcall, hp'] at hresult
    obtain ⟨memory, hone, rfl⟩ := hresult
    have hends := hproper _ memory (hone ▸ List.mem_cons_self)
    rw [hone]
    refine .called hp (Registry.takes_of_prepare hp hassigned.body) ?_
    -- the handler does not see how often it has been called
    have hplan : (p.counting n).plan memory = p.plan memory := rfl
    rw [hplan] at hends
    have hanswer : (p.counting n).result codec q.1.header.method memory =
        p.method.answer codec call.method (p.plan memory).outcome := by
      rw [hmethod]
      exact Method.answer_counting _ _ _ _ _
    rw [hanswer]
    simp only [Prepared.Yields]
    cases houtcome : (p.plan memory).outcome with
    | replies a =>
      rw [houtcome] at hends
      obtain ⟨body, hencode, hdecode⟩ := hends
      have hencode : codec.encode p.method.reply.shape a = .ok body := hencode
      refine ⟨body, ?_, hdecode⟩
      simp only [Method.answer, hencode]
      exact Response.outcome_ok codec herror body
    | fails why =>
      rw [houtcome] at hends
      exact Response.outcome_error codec _ hends
    | panics =>
      exact Response.outcome_error codec _ (append_ne_empty (append_ne_empty (by decide) _) _)

/-- **Every call is answered by its own handler.** In a session with fewer calls than numbers, whose
arguments can be encoded, whose messages go into frames and whose handlers end properly, whatever
else happens and in whatever order:

- a result of a call is its only one, and settles the call: it is the reply of the one handler that
  has been called for the request of this call with the argument of this call, or the text of its
  failure, or the reason why no handler could be called;
- whenever a handler is called, this is for the request of a call, once, and with its argument;
- where nothing is left to do, every call has its result.

The numbers of the calls have 64 bits. That there are fewer calls than numbers (`Moderate.few`)
keeps a number from being given out again, under which an older call could still be waiting. -/
theorem calls_answered (hsession : Session codec net₀ net' actions asked done)
    (hmoderate : Moderate codec asked done)
    (hproper : ∀ t p memory, (p, memory) ∈ invocations done t →
      (p.plan memory).outcome.Proper codec) :
    ∃ l, net'.lines[net₀.lines.length]? = some l ∧
      (∀ n call, l.client.calls[n]? = some call → ∀ r ∈ l.client.resultsOf n,
        l.client.resultsOf n = [r] ∧ ∃ argument t q,
          (issues asked)[n]? = some (call.method, argument) ∧
          Assigned codec done call argument t q ∧
          Settles net₀.server.registry codec call.method argument q.2 (invocations done t) r) ∧
      (∀ t, invocations done t = [] ∨
        ∃ (n : Nat) (call : Call) (argument : Datum) (q : Request × Bytes) (p : Prepared)
          (m : UInt64) (memory : Nat),
        l.client.calls[n]? = some call ∧ (issues asked)[n]? = some (call.method, argument) ∧
        Assigned codec done call argument t q ∧
        net₀.server.registry.prepare codec call.method q.2 = .ok p ∧ p.Takes codec argument ∧
        invocations done t = [(p.counting m, memory)]) ∧
      (net'.Rests l →
        ∀ n < l.client.calls.length, ∃ r, l.client.resultsOf n = [r]) := by
  have h := hsession.joined hmoderate
  obtain ⟨l, conn, hl, -, -, hlink⟩ := h.link
  refine ⟨l, hl, ?_, ?_, ?_⟩
  · intro n call hcall r hr
    obtain ⟨hone, argument, t, q, result, hargument, hassigned, hresult, rfl⟩ :=
      h.result hmoderate.fit hl hcall hr
    exact ⟨hone, argument, t, q, hargument, hassigned,
      settles_of_concludes h hassigned hresult (hproper t)⟩
  · intro t
    obtain ⟨tasks, hworks⟩ := hlink.reached.works
    rcases hworks.at t with ⟨hnone, -⟩ | ⟨q, task, hq, hfollows⟩
    · exact .inl hnone
    rcases hfollows.calls with hnone | ⟨p', memory, hp', hone⟩
    · exact .inl hnone
    obtain ⟨n, call, argument, hcall, hargument, hassigned⟩ := h.assigned hmoderate.fit hl hq
    obtain ⟨r, halike, hprepared⟩ := h.prepared q (List.mem_of_getElem? hq)
    rw [hp', hassigned.header] at hprepared
    rcases halike.prepare codec call.method q.2 with ⟨e, -, he'⟩ | ⟨p, m, hp, hpm⟩
    · cases hprepared.trans he'
    · obtain rfl := Except.ok.inj (hprepared.trans hpm)
      exact .inr ⟨n, call, argument, q, p, m, memory, hcall, hargument, hassigned, hp,
        Registry.takes_of_prepare hp hassigned.body, hone⟩
  · exact fun hrests n hn => h.completed hmoderate.fit hl hrests hn

/-! ## Two calls that overtake each other -/

/-- A session of a client that is the first one: where it leads to, its line and its histories. -/
def sessionOf (net₀ : Network) (d : Dialing) (actions : List Action) :
    Option (Network × Line × List Client.Event × List Serving.Event) := do
  let net₁ ← net₀.step (.dial d)
  let net' ← net₁.run actions
  let l ← net'.lines[0]?
  pure (net', l, net₁.clientHistory 0 actions,
    net₁.serverHistory net₀.server.connections.length actions)

/-- Whether a connection has been turned away. -/
def isTurnedAway : Option Connection → Bool
  | some .turnedAway => true
  | _ => false

theorem session_of_eq_some {d : Dialing} {l : Line} (hempty : net₀.lines = [])
    (hoptions : d.options = .forCodec codec)
    (hpeaceful : ∀ a ∈ actions, a.isPeaceful 0 net₀.server.connections.length)
    (h : sessionOf net₀ d actions = some (net', l, asked, done))
    (hkept : isTurnedAway net'.server.connections[net₀.server.connections.length]? = false) :
    Session codec net₀ net' actions asked done ∧ net'.lines[net₀.lines.length]? = some l := by
  simp only [sessionOf, Option.bind_eq_bind, Option.bind_eq_some_iff, Option.pure_def,
    Option.some.injEq, Prod.mk.injEq] at h
  obtain ⟨net₁, hdial, net'', hrun, l', hl, rfl, rfl, rfl, rfl⟩ := h
  have hzero : net₀.lines.length = 0 := by rw [hempty, List.length_nil]
  refine ⟨⟨⟨net₀, [], hempty, rfl⟩, ⟨d, net₁, hoptions, hdial, hrun, ?_, rfl⟩, ?_, ?_⟩, ?_⟩
  · rw [hzero]
  · rw [hzero]
    exact hpeaceful
  · intro hturned
    rw [hturned] at hkept
    cases hkept
  · rw [hzero]
    exact hl

/-- A service with a method that replies and one that fails. -/
def calculator : Service :=
  (Service.named "Calc").method
    (.make "Check" ⟨"()", .unit⟩ ⟨"()", .unit⟩ fun _ => { outcome := .replies () }) |>.method
    (.make "Fail" ⟨"()", .unit⟩ ⟨"()", .unit⟩ fun _ => { outcome := .fails "no" })

/-- A network with a server that offers a service and has no clients. -/
def offering (service : Service) : Network where
  server :=
    { registry := (Registry.register {} service).toOption.getD {}
      listening := .accepting false }

/-- Two calls on one client, of which the one that is issued last is written and answered first. -/
def overtaking : List Action :=
  [.server (.accept 0), .server (.serve 0), .client 0 (.issue "Calc.Check" ⟨.unit, ()⟩),
    .client 0 (.issue "Calc.Fail" ⟨.unit, ()⟩), .client 0 (.register 1), .client 0 .write,
    .carryUp 0 30, .server (.negotiate 0), .client 0 (.register 0), .client 0 .write,
    .carryUp 0 1000, .server (.negotiate 0), .server (.read 0), .server (.read 0),
    .server (.call 0 0), .server (.call 0 1), .server (.respond 0 0), .server (.respond 0 1),
    .carryDown 0 5, .client 0 .read, .carryDown 0 1000, .client 0 .read, .client 0 .read]

/-- Whether a handler ends properly that replies with a unit value, if it replies. -/
def properUnit : {s : Shape} → Outcome s.Value → Bool
  | .unit, .replies _ => true
  | _, .replies _ => false
  | _, .fails why => why ≠ ""
  | _, .panics => true

theorem proper_of_properUnit {s : Shape} {o : Outcome s.Value} (h : properUnit o) :
    o.Proper codec := by
  cases o with
  | replies a =>
    cases s with
    | unit => cases codec <;> exact ⟨_, rfl, rfl⟩
    | _ => cases h
  | fails why => cases s <;> simpa [properUnit, Outcome.Proper] using h
  | panics => trivial

/-- Whether all handlers that are called in a history end properly, and reply with unit values. -/
def properUnits (done : List Serving.Event) : Bool :=
  done.all fun
    | .invoked _ p memory => properUnit (p.plan memory).outcome
    | _ => true

theorem proper_of_properUnits (h : properUnits done) (t : Nat) (p : Prepared) (memory : Nat)
    (hp : (p, memory) ∈ invocations done t) : (p.plan memory).outcome.Proper codec := by
  simp only [invocations, List.mem_filterMap] at hp
  obtain ⟨e, he, hp⟩ := hp
  have hproper := List.all_eq_true.mp h e he
  cases e with
  | invoked u p' memory' =>
    simp only [Option.ite_none_right_eq_some, Option.some.injEq, Prod.mk.injEq] at hp
    obtain ⟨-, rfl, rfl⟩ := hp
    exact proper_of_properUnit hproper
  | _ => cases hp

theorem calls_answered_overtaking :
    ∃ net' asked done l, Session .compact (offering calculator) net' overtaking asked done ∧
      net'.lines[0]? = some l ∧ (∃ r, l.client.resultsOf 0 = [r]) ∧
      ∃ r, l.client.resultsOf 1 = [r] := by
  have hchecks : (sessionOf (offering calculator) {} overtaking).any (fun (net', l, asked, done) =>
      decide (Moderate .compact asked done) && properUnits done && decide (net'.Rests l) &&
        decide (l.client.calls.length = 2) &&
          !isTurnedAway net'.server.connections[0]?) = true := by
    decide +kernel
  obtain ⟨⟨net', l, asked, done⟩, hsome, hchecks⟩ := (Option.any_eq_true _ _).mp hchecks
  simp only [Bool.and_eq_true, decide_eq_true_eq, Bool.not_eq_true'] at hchecks
  obtain ⟨⟨⟨⟨hmoderate, hproper⟩, hrests⟩, htwo⟩, hkept⟩ := hchecks
  obtain ⟨hsession, hl⟩ :=
    session_of_eq_some rfl (rfl : _ = Options.forCodec .compact) (by decide +kernel) hsome hkept
  obtain ⟨l', hl', -, -, hcompleted⟩ :=
    calls_answered hsession hmoderate (proper_of_properUnits hproper)
  obtain rfl := Option.some.inj (hl.symm.trans hl')
  exact ⟨net', asked, done, l, hsession, hl, hcompleted hrests 0 (by omega),
    hcompleted hrests 1 (by omega)⟩

end Network

end WireCall
