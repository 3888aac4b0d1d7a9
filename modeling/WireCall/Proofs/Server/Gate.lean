import WireCall.Proofs.Negotiation.Handover
import WireCall.Proofs.Server.Accounts
import WireCall.Proofs.Server.Moves

/-!
# Negotiation comes before all requests

What becomes of a connection is decided by all bytes that its client has sent: by what the
negotiation makes of them, whenever the server looks at them (`Server.Gate`). A client whose
negotiation fails gets nothing: no request of it is read, no method is called, nothing is written to
it, and one error is counted. After a negotiation that has succeeded nothing that the client does
is a failure of the connection any more (`Server.negotiation_gates`).
-/

namespace WireCall

namespace Server

open Negotiation (receive resume)

variable {s s' s₀ s₁ : Server} {i : Nat} {a : Action} {actions : List Action}
  {source stream : Source} {sink : Sink} {conn : Connection}

/-! ## What a client has sent -/

/-- What an action brings to the stream of a connection. -/
def brought (i : Nat) (source : Source) : Action → Source
  | .receive j piece => if j = i then source.arrive piece else source
  | .hangUp j e => if j = i then source.finish e else source
  | _ => source

/-- **The stream of a connection** with all that the actions have brought, as if nothing of it had
been read. -/
def given (i : Nat) (source : Source) (actions : List Action) : Source :=
  actions.foldl (brought i) source

theorem given_concat (i : Nat) (source : Source) (actions : List Action) (a : Action) :
    given i source (actions ++ [a]) = brought i (given i source actions) a := by
  rw [given, List.foldl_append]
  rfl

theorem brought_other (ha : a.connection? ≠ some i) : brought i source a = source := by
  cases a with
  | receive j piece => exact if_neg fun h => ha (congrArg some h)
  | hangUp j e => exact if_neg fun h => ha (congrArg some h)
  | _ => rfl

/-! ## Before the gate -/

/-- Whether an action of a connection is one that only opens it. -/
def Action.isOpening : Action → Bool
  | .receive _ _ | .hangUp _ _ | .negotiate _ => true
  | _ => false

/-- Whether an action brings something to the stream of a connection. -/
def Action.isArrival : Action → Bool
  | .receive _ _ | .hangUp _ _ => true
  | _ => false

/-- Only arrivals concern a connection that is over. -/
theorem isArrival_of_over (hstep : s.step a = some s') (hconn : s.connections[i]? = some conn)
    (hover : conn.isOver = true) (ha : a.connection? = some i) : a.isArrival = true := by
  cases a with
  | receive | hangUp => rfl
  | accept | serve | negotiate | expire | read | noticeFailure | noticeShutdown | call | wake
  | respond | close =>
    cases ha
    cases conn with
    | turnedAway | refused | served =>
      simp [step, accept, negotiate, expire, read, noticeFailure, noticeShutdown, call, wake,
        respond, close, serving?, hconn] at hstep
    | _ => cases hover
  | _ => cases ha

/-- Arrivals apart, the options of a connection that is negotiated are read, or its time is over. -/
theorem opens_of_negotiating {buffer : Bytes} {deadline : Nat} (hstep : s.step a = some s')
    (hconn : s.connections[i]? = some (.negotiating buffer deadline source sink))
    (ha : a.connection? = some i) (harrival : a.isArrival = false) :
    a = .negotiate i ∨ a = .expire i := by
  cases a with
  | receive | hangUp => cases harrival
  | negotiate =>
    cases ha
    exact .inl rfl
  | expire =>
    cases ha
    exact .inr rfl
  | accept | serve | read | noticeFailure | noticeShutdown | call | wake | respond | close =>
    cases ha
    simp [step, accept, read, noticeFailure, noticeShutdown, call, wake, respond, close,
      serving?, hconn] at hstep
  | _ => cases ha

/-- **A connection has made no request**: it has been opened and no more, its steps have counted no
request and called no method, and they have counted the given number of errors. -/
structure Unasked (i : Nat) (s₀ s₁ : Server) (actions : List Action) (errors : Int) : Prop where
  opening : ∀ a ∈ actions, a.connection? = some i → a.isOpening = true
  registry : ∀ p ∈ ownSteps i s₀ s₁ actions, p.2.registry = p.1.registry
  requests : ∀ p ∈ ownSteps i s₀ s₁ actions, p.2.stats.requestsTotal = p.1.stats.requestsTotal
  errors : net Stats.errorsTotal (ownSteps i s₀ s₁ actions) = errors

/-- **What a connection is like** on which the given stream has arrived. -/
inductive Gate (i : Nat) (s₀ s₁ : Server) (actions : List Action) (stream : Source) (sink : Sink) :
    Connection → Prop
  /-- what has been read of the stream leads on to what the stream leads to -/
  | negotiating {buffer : Bytes} {deadline : Nat} {source : Source}
      (hsame : receive [] stream = receive buffer source) (hunasked : Unasked i s₀ s₁ actions 0) :
      Gate i s₀ s₁ actions stream sink (.negotiating buffer deadline source sink)
  | refused {e : WireError} {source : Source} (hrefused : receive [] stream = (.refused e, source))
      (hunasked : Unasked i s₀ s₁ actions 1) :
      Gate i s₀ s₁ actions stream sink (.refused (.wire e) sink)
  | expired {sink' : Sink} : Gate i s₀ s₁ actions stream sink (.refused .handshakeTimeout sink')
  | serving {o : Options} {rest : Bytes} {source : Source} {c : Serving}
      (hagreed : receive [] stream = (.agreed o rest, source)) :
      Gate i s₀ s₁ actions stream sink (.serving c)
  | served {o : Options} {rest : Bytes} {source : Source} {c : Serving}
      (hagreed : receive [] stream = (.agreed o rest, source)) :
      Gate i s₀ s₁ actions stream sink (.served c)

/-- A signal to stop opens no gate. -/
theorem Gate.signal (h : Gate i s₀ s₁ actions stream sink conn) :
    Gate i s₀ s₁ actions stream sink conn.signal := by
  cases h with
  | negotiating hsame hunasked => exact .negotiating hsame hunasked
  | refused hrefused hunasked => exact .refused hrefused hunasked
  | expired => exact .expired
  | serving hagreed => exact .serving hagreed
  | served hagreed => exact .served hagreed

theorem Unasked.init (hbegins : Begins s₀ i source sink s₁) : Unasked i s₀ s₁ [] 0 := by
  obtain ⟨-, hregistry, hstats, -⟩ := hbegins.negotiating
  refine ⟨nofun, ?_, ?_, ?_⟩
  · intro p hp
    obtain rfl := List.mem_singleton.mp hp
    exact hregistry
  · intro p hp
    obtain rfl := List.mem_singleton.mp hp
    rw [hstats]
    rfl
  · rw [ownSteps, Run.log_nil, net_singleton, hstats]
    exact gain_self _

section Steps

variable {m : Server} {errors : Int} (hm : s₁.run actions = some m) (hstep : m.step a = some s')
include hm hstep

theorem Unasked.own (h : Unasked i s₀ s₁ actions errors) (ha : a.connection? = some i)
    (hopening : a.isOpening = true) (hregistry : s'.registry = m.registry)
    (hrequests : s'.stats.requestsTotal = m.stats.requestsTotal) {n : Int}
    (herrors : gain m.stats.errorsTotal s'.stats.errorsTotal = n) :
    Unasked i s₀ s₁ (actions ++ [a]) (errors + n) := by
  have hsteps : ownSteps i s₀ s₁ (actions ++ [a]) = _ := ownSteps_own hm hstep ha
  refine ⟨?_, ?_, ?_, ?_⟩
  · intro b hb hown
    rcases List.mem_append.mp hb with hb | hb
    · exact h.opening b hb hown
    · obtain rfl := List.mem_singleton.mp hb
      exact hopening
  · intro p hp
    rw [hsteps] at hp
    rcases List.mem_append.mp hp with hp | hp
    · exact h.registry p hp
    · obtain rfl := List.mem_singleton.mp hp
      exact hregistry
  · intro p hp
    rw [hsteps] at hp
    rcases List.mem_append.mp hp with hp | hp
    · exact h.requests p hp
    · obtain rfl := List.mem_singleton.mp hp
      exact hrequests
  · rw [hsteps, net_concat, h.errors, herrors]

theorem Unasked.other (h : Unasked i s₀ s₁ actions errors) (ha : a.connection? ≠ some i) :
    Unasked i s₀ s₁ (actions ++ [a]) errors := by
  have hsteps : ownSteps i s₀ s₁ (actions ++ [a]) = _ := ownSteps_other hm hstep ha
  refine ⟨?_, hsteps ▸ h.registry, hsteps ▸ h.requests, hsteps ▸ h.errors⟩
  intro b hb hown
  rcases List.mem_append.mp hb with hb | hb
  · exact h.opening b hb hown
  · obtain rfl := List.mem_singleton.mp hb
    exact absurd hown ha

/-- Nothing changes at the gate in a step that is not about the connection. -/
theorem Gate.other (h : Gate i s₀ s₁ actions stream sink conn) (ha : a.connection? ≠ some i)
    (hconn : m.connections[i]? = some conn) :
    ∃ conn', s'.connections[i]? = some conn' ∧
      Gate i s₀ s₁ (actions ++ [a]) (brought i stream a) sink conn' := by
  rw [brought_other ha]
  have hkept : Gate i s₀ s₁ (actions ++ [a]) stream sink conn := by
    cases h with
    | negotiating hsame hunasked => exact .negotiating hsame (hunasked.other hm hstep ha)
    | refused hrefused hunasked => exact .refused hrefused (hunasked.other hm hstep ha)
    | expired => exact .expired
    | serving hagreed => exact .serving hagreed
    | served hagreed => exact .served hagreed
  by_cases hshutdown : a = .shutdown
  · subst hshutdown
    obtain rfl := Option.some.inj hstep
    refine ⟨conn.signal, ?_, hkept.signal⟩
    rw [List.getElem?_map, hconn]
    rfl
  · exact ⟨conn, connections_step_ne hstep ha hshutdown hconn, hkept⟩

/-- Something reaches the stream. -/
theorem Gate.reaches (h : Gate i s₀ s₁ actions stream sink conn) {f : Source → Source}
    (hf : ∀ b source, receive b (f source) = resume f (receive b source))
    (ha : a.connection? = some i) (hopening : a.isOpening = true)
    (hs' : s' = { m with connections := m.connections.modify i (.mapSource f) })
    (hconn : m.connections[i]? = some conn) :
    ∃ conn', s'.connections[i]? = some conn' ∧
      Gate i s₀ s₁ (actions ++ [a]) (f stream) sink conn' := by
  subst hs'
  refine ⟨conn.mapSource f, by rw [List.getElem?_modify_eq, hconn]; rfl, ?_⟩
  cases h with
  | negotiating hsame hunasked =>
    refine .negotiating ?_ (hunasked.own hm hstep ha hopening rfl rfl (gain_self _))
    rw [hf, hsame, ← hf]
  | refused hrefused hunasked =>
    exact .refused ((hf _ _).trans (congrArg (resume f) hrefused))
      (hunasked.own hm hstep ha hopening rfl rfl (gain_self _))
  | expired => exact .expired
  | serving hagreed => exact .serving ((hf _ _).trans (congrArg (resume f) hagreed))
  | served hagreed => exact .served ((hf _ _).trans (congrArg (resume f) hagreed))

/-- The options are read, as far as they have arrived, or have not arrived in time. -/
theorem Gate.opens {buffer : Bytes} {deadline : Nat} {source : Source}
    (hsame : receive [] stream = receive buffer source) (hunasked : Unasked i s₀ s₁ actions 0)
    (hconn : m.connections[i]? = some (.negotiating buffer deadline source sink))
    (ha : a = .negotiate i ∨ a = .expire i) :
    ∃ conn', s'.connections[i]? = some conn' ∧
      Gate i s₀ s₁ (actions ++ [a]) stream sink conn' := by
  have hopens := hstep
  rcases ha with rfl | rfl
  · simp only [Server.step, negotiate, hconn] at hopens
    split at hopens
    · rename_i buffer' source' hreceive
      obtain rfl := Option.some.inj hopens
      refine ⟨_, connections_setConnection_self hconn _, .negotiating ?_ ?_⟩
      · rw [hsame, hreceive, Negotiation.receive_of_waits hreceive]
      · exact hunasked.own hm hstep rfl rfl rfl rfl (gain_self _)
    · rename_i e source' hreceive
      obtain rfl := Option.some.inj hopens
      exact ⟨_, connections_setConnection_self hconn _, .refused (hsame.trans hreceive)
        (hunasked.own hm hstep rfl rfl rfl rfl (gain_add_one _))⟩
    · rename_i o rest source' hreceive
      obtain rfl := Option.some.inj hopens
      exact ⟨_, connections_setConnection_self hconn _, .serving (hsame.trans hreceive)⟩
  · simp only [Server.step, expire, hconn] at hopens
    split at hopens
    · split at hopens
      · obtain rfl := Option.some.inj hopens
        exact ⟨_, connections_setConnection_self hconn _, .expired⟩
      · cases hopens
    · cases hopens

/-- The steps of a connection that bring nothing to its stream. -/
theorem Gate.own (h : Gate i s₀ s₁ actions stream sink conn) (ha : a.connection? = some i)
    (harrival : a.isArrival = false) (hconn : m.connections[i]? = some conn) :
    ∃ conn', s'.connections[i]? = some conn' ∧
      Gate i s₀ s₁ (actions ++ [a]) stream sink conn' := by
  have hlives : conn.isOver ≠ true := by
    intro hover
    exact Bool.noConfusion (harrival.symm.trans (isArrival_of_over hstep hconn hover ha))
  cases h with
  | negotiating hsame hunasked =>
    exact Gate.opens hm hstep hsame hunasked hconn (opens_of_negotiating hstep hconn ha harrival)
  | serving hagreed =>
    rcases step_serving (serving?_eq_some.mpr hconn) hstep with ⟨c', hc', -⟩ | ⟨hserved, -⟩
    · exact ⟨_, serving?_eq_some.mp hc', .serving hagreed⟩
    · exact ⟨_, hserved, .served hagreed⟩
  | refused | expired | served => exact absurd rfl hlives

/-- **Every step keeps the gate.** -/
theorem Gate.step (h : Gate i s₀ s₁ actions stream sink conn)
    (hconn : m.connections[i]? = some conn) :
    ∃ conn', s'.connections[i]? = some conn' ∧
      Gate i s₀ s₁ (actions ++ [a]) (brought i stream a) sink conn' := by
  by_cases ha : a.connection? = some i
  · cases a with
    | receive j piece =>
      cases ha
      rw [brought, if_pos rfl]
      exact h.reaches hm hstep (fun b source => Negotiation.receive_arrive b source piece) rfl rfl
        (Option.some.inj hstep).symm hconn
    | hangUp j e =>
      cases ha
      rw [brought, if_pos rfl]
      exact h.reaches hm hstep (fun b source => Negotiation.receive_finish b source e) rfl rfl
        (Option.some.inj hstep).symm hconn
    | _ => exact h.own hm hstep ha rfl hconn
  · exact h.other hm hstep ha hconn

end Steps

/-- **Every connection is kept by the gate**, from the beginning of its serving on. -/
theorem gate_of_run (hbegins : Begins s₀ i source sink s₁) (hrun : s₁.run actions = some s) :
    ∃ conn, s.connections[i]? = some conn ∧
      Gate i s₀ s₁ actions (given i source actions) sink conn := by
  refine Run.induct (P := fun as s => ∃ conn, s.connections[i]? = some conn ∧
    Gate i s₀ s₁ as (given i source as) sink conn) ?_ ?_ actions s hrun
  · exact ⟨_, hbegins.negotiating.1, .negotiating rfl (.init hbegins)⟩
  · rintro as m a s' hm ⟨conn, hconn, hgate⟩ hstep
    rw [given_concat]
    exact hgate.step hm hstep hconn

/-! ## The main statement -/

/-- **Negotiation comes before all requests.** Let the serving of a connection begin on a server in
any state, take any run behind that, and suppose that the time for its options does not run out.

- If what its client has sent is refused by the negotiation, then the serving of the connection has
  ended with just that error, or has not ended yet and ends with it as soon as the options are read.
  Nothing is written to the client and the stream is not even shut down, no request is read and no
  method is called, and one error is counted, when the serving ends.
- If the negotiation succeeds, then the first line that the client has sent holds the magic number
  and the identifier of a codec, and the serving, if it ends, ends without an error, whatever else
  happens on the connection.
- In both cases the connection is counted once, and no more as under way when its serving ends. -/
theorem negotiation_gates (hbegins : Begins s₀ i source sink s₁) (hrun : s₁.run actions = some s)
    (htime : ∀ sink', s.connections[i]? ≠ some (.refused .handshakeTimeout sink')) :
    ∃ conn, s.connections[i]? = some conn ∧
      (∀ e, (receive [] (given i source actions)).1 = .refused e →
        (conn.result? = some (.error (.wire e)) ∧ Unasked i s₀ s₁ actions 1 ∨
          conn.result? = none ∧ Unasked i s₀ s₁ actions 0 ∧
            ∃ s', s.step (.negotiate i) = some s' ∧
              s'.connections[i]? = some (.refused (.wire e) sink)) ∧
        conn.sink? = some sink) ∧
      (∀ o rest, (receive [] (given i source actions)).1 = .agreed o rest →
        (∃ line more v, (given i source actions).unread = line ++ 0x0a :: more ∧ 0x0a ∉ line ∧
          Codec.json.decode Options.shape line = .ok v ∧
          Options.fields v = (3927900, o.codec.identifier) ∧ o.codec ∈ Codec.all) ∧
        ∀ result, conn.result? = some result → result = .ok ()) ∧
      (conn.result?.isSome →
        net Stats.connectionsActive (ownSteps i s₀ s₁ actions) = 0 ∧
        net Stats.connectionsTotal (ownSteps i s₀ s₁ actions) = 1) := by
  obtain ⟨conn, hconn, hgate⟩ := gate_of_run hbegins hrun
  obtain ⟨g, hg, -, htotal, hactive⟩ := net_connections hbegins hrun
  obtain rfl := Option.some.inj ((stages_getElem? hconn).symm.trans hg)
  refine ⟨conn, hconn, ?_, ?_, ?_⟩
  · intro e hrefused
    cases hgate with
    | negotiating hsame hunasked =>
      refine ⟨.inr ⟨rfl, hunasked, s.refuse i (.wire e) sink, ?_, ?_⟩, rfl⟩
      · rename_i buffer _ source'
        obtain ⟨rest, hreceive⟩ : ∃ rest, receive buffer source' = (.refused e, rest) := by
          rw [hsame] at hrefused
          exact ⟨_, Prod.ext hrefused rfl⟩
        simp only [Server.step, negotiate, hconn, hreceive]
      · exact connections_setConnection_self hconn _
    | refused hrefused' hunasked =>
      rw [hrefused'] at hrefused
      obtain rfl := Negotiation.Outcome.refused.inj hrefused
      exact ⟨.inl ⟨rfl, hunasked⟩, rfl⟩
    | expired => exact absurd hconn (htime _)
    | serving hagreed | served hagreed =>
      rw [hagreed] at hrefused
      cases hrefused
  · intro o rest hagreed
    constructor
    · have hsettles := Negotiation.settles_receive [] (given i source actions)
      generalize receive [] (given i source actions) = result at hagreed hsettles
      cases hsettles with
      | agreed hbytes hline hok =>
        obtain ⟨rfl, rfl⟩ := Negotiation.Outcome.agreed.inj hagreed
        obtain ⟨v, hdecode, hfields, -, hcodec⟩ := Options.exists_fields hok
        exact ⟨_, _, v, hbytes, hline, hdecode, hfields, hcodec⟩
      | refused | tooLarge | ended | waits => cases hagreed
    · intro result hresult
      cases hgate with
      | negotiating | serving => cases hresult
      | refused hrefused =>
        rw [hrefused] at hagreed
        cases hagreed
      | expired => exact absurd hconn (htime _)
      | served => exact (Option.some.inj hresult).symm
  · intro hreturned
    refine ⟨?_, htotal⟩
    rw [hactive]
    cases conn <;> first | rfl | cases hreturned

/-- A client sends a line of options and a request behind it. -/
def sends (o : Options) : List Action :=
  [.receive 0 (o.text ++ 0x0a :: Message.bytes .json (⟨"Foo.Sum", 1, ""⟩, [0x37])), .negotiate 0]

/-- Two clients send a request behind their options. The magic number of the first is another one,
and nothing becomes of its request; that of the second is read, although its stream breaks. -/
theorem negotiation_gates_request_behind :
    (∃ s₁ s conn, Begins {} 0 {} { behaviour := .faithful } s₁ ∧
      s₁.run (sends ⟨7, .json⟩) = some s ∧ s.connections[0]? = some conn ∧
      conn.result? = some (.error (.wire (.invalidMagicNumber 7 3927900))) ∧
      conn.sink? = some { behaviour := .faithful } ∧ Unasked 0 {} s₁ (sends ⟨7, .json⟩) 1) ∧
    ∃ s₁ s conn, Begins {} 0 {} { behaviour := .faithful } s₁ ∧
      s₁.run (sends (.forCodec .json) ++ [.hangUp 0 (.failed .broken), .read 0, .read 0, .call 0 0,
        .respond 0 0, .close 0]) = some s ∧
      s.connections[0]? = some conn ∧ conn.result? = some (.ok ()) ∧
      s.stats.requestsTotal = 1 := by
  constructor
  · have hends : (run {} (.handOver { behaviour := .faithful } :: sends ⟨7, .json⟩)).any (fun s =>
        s.connections[0]?.any fun
          | .refused (.wire _) _ => true
          | _ => false) = true := by
      decide +kernel
    obtain ⟨s, hrun, hs⟩ := (Option.any_eq_true _ _).mp hends
    obtain ⟨s₁, hs₁, hrun⟩ := Run.cons_eq_some.mp hrun
    have hbegins : Begins {} 0 {} { behaviour := .faithful } s₁ := .inr ⟨rfl, rfl, hs₁⟩
    obtain ⟨conn, hconn, hkind⟩ := (Option.any_eq_true _ _).mp hs
    have htime : ∀ sink', s.connections[0]? ≠ some (.refused .handshakeTimeout sink') := by
      intro sink' h
      obtain rfl := Option.some.inj (hconn.symm.trans h)
      cases hkind
    obtain ⟨conn', hconn', hrefused, -⟩ := negotiation_gates hbegins hrun htime
    obtain rfl := Option.some.inj (hconn.symm.trans hconn')
    have hreceive := (Negotiation.receive_text (o := ⟨7, .json⟩)
      (s := given 0 {} (sends ⟨7, .json⟩)) (List.append_nil _)).2 (by decide)
    obtain ⟨⟨hresult, hunasked⟩ | ⟨hnone, -⟩, hsink⟩ := hrefused _ hreceive
    · exact ⟨s₁, s, conn, hbegins, hrun, hconn, hresult, hsink, hunasked⟩
    · cases conn with
      | refused => cases hnone
      | _ => cases hkind
  · have hends : (run {} (.handOver { behaviour := .faithful } :: (sends (.forCodec .json) ++
        [.hangUp 0 (.failed .broken), .read 0, .read 0, .call 0 0, .respond 0 0, .close 0]))).any
        (fun s => s.stats.requestsTotal = 1 && s.connections[0]?.any fun
          | .served _ => true
          | _ => false) = true := by
      decide +kernel
    obtain ⟨s, hrun, hs⟩ := (Option.any_eq_true _ _).mp hends
    obtain ⟨s₁, hs₁, hrun⟩ := Run.cons_eq_some.mp hrun
    have hbegins : Begins {} 0 {} { behaviour := .faithful } s₁ := .inr ⟨rfl, rfl, hs₁⟩
    rw [Bool.and_eq_true] at hs
    obtain ⟨hcounted, hs⟩ := hs
    obtain ⟨conn, hconn, hkind⟩ := (Option.any_eq_true _ _).mp hs
    have htime : ∀ sink', s.connections[0]? ≠ some (.refused .handshakeTimeout sink') := by
      intro sink' h
      obtain rfl := Option.some.inj (hconn.symm.trans h)
      cases hkind
    obtain ⟨conn', hconn', -, hagreed, -⟩ := negotiation_gates hbegins hrun htime
    obtain rfl := Option.some.inj (hconn.symm.trans hconn')
    obtain ⟨rest, stream, hreceive, -⟩ :=
      (Negotiation.receive_text (o := .forCodec .json)
        (s := given 0 {} (sends (.forCodec .json) ++ [.hangUp 0 (.failed .broken), .read 0, .read 0,
          .call 0 0, .respond 0 0, .close 0])) (List.append_nil _)).1 rfl
    obtain ⟨-, hok⟩ := hagreed _ rest (congrArg Prod.fst hreceive)
    cases conn with
    | served c =>
      exact ⟨s₁, s, .served c, hbegins, hrun, hconn, congrArg some (hok _ rfl),
        of_decide_eq_true hcounted⟩
    | _ => cases hkind

end Server

end WireCall
