import WireCall.Proofs.Network.Link

/-!
# The lines of a network

A step of a network is a step of the server, of one client or of both ends of a line
(`Network.step_client` and its siblings). So it leaves a line and its connection as the histories of
both say (`Network.Joined`), if neither end stops using the line, the arguments of the calls can be
encoded, the messages go into frames and there are fewer calls than numbers. What each step keeps, a
run keeps (`Network.joined_of_run`).
-/

namespace WireCall

/-- Whether a value can be encoded. -/
def Codec.Encodes (c : Codec) (d : Datum) : Prop := ∃ body, c.encode d.shape d.value = .ok body

instance Codec.decidableEncodes (c : Codec) (d : Datum) : Decidable (c.Encodes d) :=
  match h : c.encode d.shape d.value with
  | .ok body => isTrue ⟨body, h⟩
  | .error _ => isFalse fun ⟨_, hbody⟩ => by rw [h] at hbody; cases hbody

namespace Network

open Serving (answers requests questions written invocations)
open Client (issues sent arrivals heard)

variable {net net' : Network} {j k i most : Nat}

/-! ## What a step is -/

theorem step_dial {d : Dialing} (hstep : net.step (.dial d) = some net') :
    ∃ client sink, Client.connect d.options {} { behaviour := .faithful } = (.ok client, sink) ∧
      net' = { net with
        server := { net.server with
          connections := net.server.connections ++ [.arrived {} { behaviour := .faithful }] }
        lines := net.lines ++ [{ client, connection := net.server.connections.length }] } := by
  simp only [step, dial] at hstep
  split at hstep
  · cases hstep
  split at hstep
  · cases hconnect : Client.connect d.options {} { behaviour := .faithful } with
    | mk r sink =>
    rw [hconnect] at hstep
    cases r with
    | error e => cases hstep
    | ok client => exact ⟨client, sink, rfl, (Option.some.inj hstep).symm⟩
  · cases hstep

theorem step_client {a : Client.Action} (hstep : net.step (.client j a) = some net') :
    ∃ l c, net.lines[j]? = some l ∧ a.isOwn ∧ l.client.step a = some c ∧
      net' = net.setLine j { l with client := c } := by
  simp only [step, Option.bind_eq_bind, Option.bind_eq_some_iff] at hstep
  obtain ⟨l, hl, hstep⟩ := hstep
  split at hstep
  · rename_i hown
    obtain ⟨c, hc, hstep⟩ := Option.bind_eq_some_iff.mp hstep
    exact ⟨l, c, hl, hown, hc, (Option.some.inj hstep).symm⟩
  · cases hstep

theorem step_server {a : Server.Action} (hstep : net.step (.server a) = some net') :
    a.isOwn ∧ ∃ s, net.server.step a = some s ∧ net' = { net with server := s } := by
  simp only [step] at hstep
  split at hstep
  · rename_i hown
    obtain ⟨s, hs, hstep⟩ := Option.bind_eq_some_iff.mp hstep
    exact ⟨hown, s, hs, (Option.some.inj hstep).symm⟩
  · cases hstep

theorem step_carryUp (hstep : net.step (.carryUp j most) = some net') :
    ∃ l s, net.lines[j]? = some l ∧
      net.server.step (.receive l.connection (l.underwayUp.take most)) = some s ∧
      net' = Network.setLine { net with server := s } j
        { l with up := l.up + (l.underwayUp.take most).length } := by
  simp only [step, carryUp, Option.bind_eq_bind, Option.bind_eq_some_iff] at hstep
  obtain ⟨l, hl, s, hs, hstep⟩ := hstep
  exact ⟨l, s, hl, hs, (Option.some.inj hstep).symm⟩

theorem step_carryDown (hstep : net.step (.carryDown j most) = some net') :
    ∃ l, net.lines[j]? = some l ∧
      net' = net.setLine j
        { l with
          client := { l.client with
            reader := l.client.reader.arrive ((net.underwayDown l).take most) }
          down := l.down + ((net.underwayDown l).take most).length } := by
  simp only [step, carryDown, Option.bind_eq_bind, Option.bind_eq_some_iff] at hstep
  obtain ⟨l, hl, c, hc, hstep⟩ := hstep
  obtain rfl := Option.some.inj hc
  exact ⟨l, hl, (Option.some.inj hstep).symm⟩

theorem step_endUp (hstep : net.step (.endUp j) = some net') :
    ∃ l s, net.lines[j]? = some l ∧ l.isEndedUp ∧
      net.server.step (.hangUp l.connection .finished) = some s ∧
      net' = { net with server := s } := by
  simp only [step, endUp, Option.bind_eq_bind, Option.bind_eq_some_iff] at hstep
  obtain ⟨l, hl, hstep⟩ := hstep
  split at hstep
  · rename_i hended
    obtain ⟨s, hs, hstep⟩ := Option.bind_eq_some_iff.mp hstep
    exact ⟨l, s, hl, hended.1, hs, (Option.some.inj hstep).symm⟩
  · cases hstep

theorem step_endDown (hstep : net.step (.endDown j) = some net') :
    ∃ l c, net.lines[j]? = some l ∧ net.isEndedDown l ∧
      l.client.step (.hangUp .finished) = some c ∧ net' = net.setLine j { l with client := c } := by
  simp only [step, endDown, Option.bind_eq_bind, Option.bind_eq_some_iff] at hstep
  obtain ⟨l, hl, hstep⟩ := hstep
  split at hstep
  · rename_i hended
    obtain ⟨c, hc, hstep⟩ := Option.bind_eq_some_iff.mp hstep
    exact ⟨l, c, hl, hended.1, hc, (Option.some.inj hstep).symm⟩
  · cases hstep

/-! ## A line in use -/

/-- Whether an action leaves a line and its connection in use. -/
def Action.isPeaceful (k i : Nat) : Action → Bool
  | .client j a => j ≠ k || a.isPeaceful
  | .server a => a.isPeaceful i
  | _ => true

/-- Whether a client is used in moderation: there are fewer calls than numbers, the arguments can be
encoded, and all messages go into frames. -/
structure Moderate (codec : Codec) (asked : List Client.Event) (done : List Serving.Event) :
    Prop where
  few : (issues asked).length < Client.numbers
  encodes : ∀ call ∈ issues asked, codec.Encodes call.2
  fit : Fit codec asked done

instance decidableModerate (codec : Codec) (asked : List Client.Event)
    (done : List Serving.Event) : Decidable (Moderate codec asked done) :=
  decidable_of_iff ((issues asked).length < Client.numbers ∧
      (∀ call ∈ issues asked, codec.Encodes call.2) ∧ (∀ m ∈ sent asked, Message.Fits codec m) ∧
      ∀ a ∈ answers done, Message.Fits codec a.2.message)
    ⟨fun ⟨hfew, hencodes, hsent, hanswers⟩ => ⟨hfew, hencodes, hsent, hanswers⟩,
    fun h => ⟨h.few, h.encodes, h.fit.sent, h.fit.answers⟩⟩

/-- **A line and its connection** stand as the events on both say. No other line leads to the same
connection, and each request has been prepared as it would have been at the start. -/
structure Joined (codec : Codec) (registry : Registry) (k i : Nat) (asked : List Client.Event)
    (done : List Serving.Event) (net : Network) : Prop where
  link : ∃ l conn, net.lines[k]? = some l ∧ l.connection = i ∧
    net.server.connections[i]? = some conn ∧ Link codec asked done l conn
  others : ∀ {j : Nat} {l : Line}, j ≠ k → net.lines[j]? = some l → l.connection ≠ i
  alike : registry.Alike net.server.registry
  prepared : ∀ q ∈ requests done, ∃ r, registry.Alike r ∧
    q.1.call = r.prepare codec q.1.header.method q.2

variable {codec : Codec} {registry : Registry} {asked ev : List Client.Event}
  {done ev' : List Serving.Event}

theorem Moderate.of_append (h : Moderate codec (asked ++ ev) (done ++ ev')) :
    Moderate codec asked done where
  few := by
    have := h.few
    rw [Client.issues_append, List.length_append] at this
    omega
  encodes := fun call hcall => h.encodes call (by
    rw [Client.issues_append]
    exact List.mem_append_left _ hcall)
  fit := h.fit.mono (List.prefix_append _ _) (List.prefix_append _ _)

namespace Joined

/-- The server takes a step. -/
theorem server_step (h : Joined codec registry k i asked done net) {b : Server.Action} {s : Server}
    (hb : net.server.step b = some s) (hpeaceful : b.isPeaceful i)
    (hfit : Fit codec asked (done ++ net.server.events i b))
    (hkept : s.connections[i]? ≠ some .turnedAway) {l : Line} (hl : net.lines[k]? = some l)
    {lines : List Line} {up : Nat} (hlines : lines[k]? = some { l with up })
    (hothers : ∀ {j : Nat} {l : Line}, j ≠ k → lines[j]? = some l → l.connection ≠ i)
    (hup : l.client.writer.sink.taken.take l.up ++ Server.received i b =
      l.client.writer.sink.taken.take up)
    (hle : up ≤ l.client.writer.sink.taken.length) :
    Joined codec registry k i asked (done ++ net.server.events i b)
      { net with server := s, lines } := by
  obtain ⟨l', conn, hl', hconnection, hconn, hlink⟩ := h.link
  obtain rfl := Option.some.inj (hl.symm.trans hl')
  obtain ⟨conn', hconn', hlink'⟩ := hlink.server_step hconn hb hpeaceful hfit hkept hup hle
  refine ⟨⟨_, conn', hlines, hconnection, hconn', hlink'⟩, hothers,
    h.alike.trans (Server.alike_step hb), ?_⟩
  intro q hq
  rw [Serving.requests_append] at hq
  rcases List.mem_append.mp hq with hq | hq
  · exact h.prepared q hq
  · exact ⟨_, h.alike, hlink.reached.call_of_asked hconn hq⟩

/-- The server takes a step that brings nothing to the connection. -/
theorem server_still (h : Joined codec registry k i asked done net) {b : Server.Action} {s : Server}
    (hb : net.server.step b = some s) (hpeaceful : b.isPeaceful i)
    (hfit : Fit codec asked (done ++ net.server.events i b))
    (hkept : s.connections[i]? ≠ some .turnedAway) (hreceived : Server.received i b = [])
    {lines : List Line} (hlines : lines[k]? = net.lines[k]?)
    (hothers : ∀ {j : Nat} {l : Line}, j ≠ k → lines[j]? = some l → l.connection ≠ i) :
    Joined codec registry k i asked (done ++ net.server.events i b)
      { net with server := s, lines } := by
  obtain ⟨l, conn, hl, -, -, hlink⟩ := h.link
  exact h.server_step hb hpeaceful hfit hkept hl (hlines.trans hl) hothers
    (by rw [hreceived, List.append_nil]) hlink.up_le

/-- The client of the line changes. -/
theorem set_line (h : Joined codec registry k i asked done net) {asked' : List Client.Event}
    {l : Line} (hconnection : l.connection = i)
    (hlink : ∀ conn, net.server.connections[i]? = some conn → Link codec asked' done l conn) :
    Joined codec registry k i asked' done (net.setLine k l) := by
  obtain ⟨l', conn, hl', -, hconn, -⟩ := h.link
  refine ⟨⟨l, conn, ?_, hconnection, hconn, hlink conn hconn⟩, ?_, h.alike, h.prepared⟩
  · exact List.getElem?_set_self (List.getElem?_eq_some_iff.mp hl').1
  · intro j x hj hx
    exact h.others hj ((List.getElem?_set_ne (Ne.symm hj)).symm.trans hx)

/-- Another line changes, and still leads to the same connection. -/
theorem others_set (h : Joined codec registry k i asked done net) {l l' : Line}
    (hl : net.lines[j]? = some l) {m : Nat} {x : Line} (hm : m ≠ k)
    (hx : (net.lines.set j l')[m]? = some x) (hconnection : l'.connection = l.connection) :
    x.connection ≠ i := by
  rcases getElem?_of_set hx with ⟨rfl, rfl⟩ | ⟨-, hx⟩
  · rw [hconnection]
    exact h.others hm hl
  · exact h.others hm hx

/-- The client of another line changes. -/
theorem set_other (h : Joined codec registry k i asked done net) (hj : j ≠ k) {l l' : Line}
    (hl : net.lines[j]? = some l) (hconnection : l'.connection = l.connection) :
    Joined codec registry k i asked done (net.setLine j l') := by
  obtain ⟨lk, conn, hlk, hk, hconn, hlink⟩ := h.link
  refine ⟨⟨lk, conn, (List.getElem?_set_ne hj).trans hlk, hk, hconn, hlink⟩, ?_, h.alike,
    h.prepared⟩
  exact fun hm hx => h.others_set hl hm hx hconnection

/-- What is under way to the client is what is written and has not arrived. -/
theorem underwayDown (h : Joined codec registry k i asked done net) {l : Line}
    (hl : net.lines[k]? = some l) : net.underwayDown l = (written codec done).drop l.down := by
  obtain ⟨l', conn, hl', hconnection, hconn, hlink⟩ := h.link
  obtain rfl := Option.some.inj (hl.symm.trans hl')
  obtain ⟨sink, hsink, htaken⟩ := hlink.reached.sink
  simp only [Network.underwayDown, connection?, hconnection, hconn, Option.bind_some, hsink, htaken]

/-! ## All steps -/

theorem clientEvents_of_none {a : Action} (h : clientAction? k net a = none) :
    clientEvents k net a = [] := by
  simp only [clientEvents, h]
  split
  · rename_i hsome
    cases hsome
  · rfl

theorem serverEvents_of_none {a : Action} (h : net.serverAction? a = none) :
    serverEvents i net a = [] := by
  simp only [serverEvents, h]

/-- Another client connects. -/
theorem dial (h : Joined codec registry k i asked done net) {d : Dialing}
    (hstep : net.step (.dial d) = some net')
    (hfit : Fit codec asked (done ++ serverEvents i net (.dial d)))
    (hkept : net'.server.connections[i]? ≠ some .turnedAway) :
    Joined codec registry k i asked (done ++ serverEvents i net (.dial d)) net' := by
  obtain ⟨l, conn, hl, -, hconn, -⟩ := h.link
  obtain ⟨client, sink, -, rfl⟩ := step_dial hstep
  have hlt : k < net.lines.length := (List.getElem?_eq_some_iff.mp hl).1
  refine h.server_still (b := .arrive { behaviour := .faithful }) rfl rfl hfit hkept rfl
    (List.getElem?_append_left hlt) ?_
  intro m x hm hx
  rcases getElem?_of_concat hx with hx | ⟨-, rfl⟩
  · exact h.others hm hx
  · -- a new line leads to a new connection
    exact Nat.ne_of_gt (List.getElem?_eq_some_iff.mp hconn).1

/-- A client takes a step. -/
theorem client (h : Joined codec registry k i asked done net) {m : Nat} {a : Client.Action}
    (hstep : net.step (.client m a) = some net')
    (hpeaceful : Action.isPeaceful k i (.client m a))
    (hmoderate : Moderate codec (asked ++ clientEvents k net (.client m a)) done) :
    Joined codec registry k i (asked ++ clientEvents k net (.client m a)) done net' := by
  obtain ⟨l, conn, hl, hconnection, hconn, hlink⟩ := h.link
  obtain ⟨x, c, hx, hown, hc, rfl⟩ := step_client hstep
  by_cases hm : m = k
  · subst hm
    obtain rfl := Option.some.inj (hl.symm.trans hx)
    have hevents : clientEvents m net (.client m a) = l.client.events a := by
      simp only [clientEvents, clientAction?, hl, if_true]
    rw [hevents] at hmoderate ⊢
    have hpeaceful' : a.isPeaceful := by simpa [Action.isPeaceful] using hpeaceful
    have hfew : (issues asked).length < Client.numbers := by
      have := hmoderate.few
      rw [Client.issues_append, List.length_append] at this
      omega
    refine h.set_line hconnection ?_
    intro conn' hconn'
    obtain rfl := Option.some.inj (hconn.symm.trans hconn')
    exact hlink.client_step hc hown hpeaceful' hfew hmoderate.encodes hmoderate.fit
  · rw [clientEvents_of_none (a := .client m a) (if_neg hm), List.append_nil]
    exact h.set_other hm hx rfl

/-- Bytes are carried to the server. -/
theorem carry_up (h : Joined codec registry k i asked done net) {m most : Nat}
    (hstep : net.step (.carryUp m most) = some net')
    (hfit : Fit codec asked (done ++ serverEvents i net (.carryUp m most)))
    (hkept : net'.server.connections[i]? ≠ some .turnedAway) :
    Joined codec registry k i asked (done ++ serverEvents i net (.carryUp m most)) net' := by
  obtain ⟨l, conn, hl, hconnection, hconn, hlink⟩ := h.link
  obtain ⟨x, s, hx, hs, rfl⟩ := step_carryUp hstep
  have hevents : serverEvents i net (.carryUp m most) =
      net.server.events i (.receive x.connection (x.underwayUp.take most)) := by
    simp only [serverEvents, serverAction?, hx, Option.map_some]
  rw [hevents] at hfit ⊢
  by_cases hm : m = k
  · subst hm
    obtain rfl := Option.some.inj (hl.symm.trans hx)
    refine h.server_step hs rfl hfit hkept hl
      (List.getElem?_set_self (List.getElem?_eq_some_iff.mp hl).1) ?_ ?_ ?_
    · intro j y hj hy
      exact h.others hj ((List.getElem?_set_ne (Ne.symm hj)).symm.trans hy)
    · simp only [Server.received, hconnection, if_true]
      exact take_append_take _ _ _
    · simp only [Line.underwayUp, List.length_take, List.length_drop]
      have := hlink.up_le
      omega
  · refine h.server_still hs rfl hfit hkept (if_neg (h.others hm hx)) (List.getElem?_set_ne hm) ?_
    intro j y hj hy
    exact h.others_set hx hj hy rfl

/-- Bytes are carried to the client. -/
theorem carry_down (h : Joined codec registry k i asked done net) {m most : Nat}
    (hstep : net.step (.carryDown m most) = some net') :
    Joined codec registry k i (asked ++ clientEvents k net (.carryDown m most)) done net' := by
  obtain ⟨l, conn, hl, hconnection, hconn, hlink⟩ := h.link
  obtain ⟨x, hx, rfl⟩ := step_carryDown hstep
  by_cases hm : m = k
  · subst hm
    obtain rfl := Option.some.inj (hl.symm.trans hx)
    have hevents : clientEvents m net (.carryDown m most) =
        [.arrived ((net.underwayDown l).take most)] := by
      simp only [clientEvents, clientAction?, hl, if_true, Option.map_some]
      rfl
    rw [hevents, h.underwayDown hl]
    refine h.set_line hconnection ?_
    intro conn' hconn'
    obtain rfl := Option.some.inj (hconn.symm.trans hconn')
    exact hlink.carry_down most
  · rw [clientEvents_of_none (a := .carryDown m most) (if_neg hm), List.append_nil]
    exact h.set_other hm hx rfl

/-- The stream of another client ends. That of this one has not been shut down. -/
theorem end_up (h : Joined codec registry k i asked done net) {m : Nat}
    (hstep : net.step (.endUp m) = some net')
    (hfit : Fit codec asked (done ++ serverEvents i net (.endUp m)))
    (hkept : net'.server.connections[i]? ≠ some .turnedAway) :
    Joined codec registry k i asked (done ++ serverEvents i net (.endUp m)) net' := by
  obtain ⟨l, conn, hl, -, -, hlink⟩ := h.link
  obtain ⟨x, s, hx, hended, hs, rfl⟩ := step_endUp hstep
  have hevents : serverEvents i net (.endUp m) =
      net.server.events i (.hangUp x.connection .finished) := by
    simp only [serverEvents, serverAction?, hx, Option.map_some]
  rw [hevents] at hfit ⊢
  by_cases hm : m = k
  · subst hm
    obtain rfl := Option.some.inj (hl.symm.trans hx)
    simp [Line.isEndedUp, hlink.client.speaks.shutdowns] at hended
  · have hne := h.others hm hx
    exact h.server_still hs (by simp [Server.Action.isPeaceful, hne]) hfit hkept rfl rfl h.others

/-- The server ends the stream of another client. The connection of this one is not over. -/
theorem end_down (h : Joined codec registry k i asked done net) {m : Nat}
    (hstep : net.step (.endDown m) = some net') :
    Joined codec registry k i (asked ++ clientEvents k net (.endDown m)) done net' := by
  obtain ⟨l, conn, hl, hconnection, hconn, hlink⟩ := h.link
  obtain ⟨x, c, hx, hended, -, rfl⟩ := step_endDown hstep
  by_cases hm : m = k
  · subst hm
    obtain rfl := Option.some.inj (hl.symm.trans hx)
    simp [isEndedDown, connection?, hconnection, hconn, hlink.reached.isOver] at hended
  · rw [clientEvents_of_none (a := .endDown m) (if_neg hm), List.append_nil]
    exact h.set_other hm hx rfl

/-- **Every step of the network** leaves the line and its connection as the events say. -/
theorem step (h : Joined codec registry k i asked done net) {a : Action}
    (hstep : net.step a = some net') (hpeaceful : a.isPeaceful k i)
    (hmoderate : Moderate codec (asked ++ clientEvents k net a) (done ++ serverEvents i net a))
    (hkept : net'.server.connections[i]? ≠ some .turnedAway) :
    Joined codec registry k i (asked ++ clientEvents k net a) (done ++ serverEvents i net a)
      net' := by
  cases a with
  | dial d =>
    rw [clientEvents_of_none rfl, List.append_nil] at hmoderate ⊢
    exact h.dial hstep hmoderate.fit hkept
  | client m a =>
    rw [serverEvents_of_none rfl, List.append_nil] at hmoderate ⊢
    exact h.client hstep hpeaceful hmoderate
  | server a =>
    obtain ⟨hown, s, hs, rfl⟩ := step_server hstep
    rw [clientEvents_of_none rfl, List.append_nil] at hmoderate ⊢
    have hreceived : Server.received i a = [] := by cases a <;> first | rfl | cases hown
    exact h.server_still hs hpeaceful hmoderate.fit hkept hreceived rfl h.others
  | carryUp m most =>
    rw [clientEvents_of_none rfl, List.append_nil] at hmoderate ⊢
    exact h.carry_up hstep hmoderate.fit hkept
  | carryDown m most =>
    rw [serverEvents_of_none rfl, List.append_nil]
    exact h.carry_down hstep
  | endUp m =>
    rw [clientEvents_of_none rfl, List.append_nil] at hmoderate ⊢
    exact h.end_up hstep hmoderate.fit hkept
  | endDown m =>
    rw [serverEvents_of_none rfl, List.append_nil]
    exact h.end_down hstep

end Joined

/-! ## Runs -/

/-- The server of a network goes on by steps of its own. -/
theorem server_of_step {a : Action} (hstep : net.step a = some net') :
    net'.server = net.server ∨ ∃ b, net.server.step b = some net'.server := by
  cases a with
  | dial d =>
    obtain ⟨client, sink, -, rfl⟩ := step_dial hstep
    exact .inr ⟨.arrive { behaviour := .faithful }, rfl⟩
  | client j a =>
    obtain ⟨l, c, -, -, -, rfl⟩ := step_client hstep
    exact .inl rfl
  | server a =>
    obtain ⟨-, s, hs, rfl⟩ := step_server hstep
    exact .inr ⟨a, hs⟩
  | carryUp j most =>
    obtain ⟨l, s, -, hs, rfl⟩ := step_carryUp hstep
    exact .inr ⟨_, hs⟩
  | carryDown j most =>
    obtain ⟨l, -, rfl⟩ := step_carryDown hstep
    exact .inl rfl
  | endUp j =>
    obtain ⟨l, s, -, -, hs, rfl⟩ := step_endUp hstep
    exact .inr ⟨_, hs⟩
  | endDown j =>
    obtain ⟨l, c, -, -, -, rfl⟩ := step_endDown hstep
    exact .inl rfl

/-- A connection that is turned away stays so. -/
theorem turnedAway_step {a : Action} (hstep : net.step a = some net')
    (h : net.server.connections[i]? = some .turnedAway) :
    net'.server.connections[i]? = some .turnedAway := by
  rcases server_of_step hstep with hsame | ⟨b, hb⟩
  · rw [hsame]
    exact h
  · exact Server.connections_over rfl h hb

/-- **A run leaves a line and its connection as their histories say**, if both stay in use. -/
theorem joined_of_run (h : Joined codec registry k i [] [] net) {actions : List Action}
    (hrun : net.run actions = some net') (hpeaceful : ∀ a ∈ actions, a.isPeaceful k i)
    (hmoderate : Moderate codec (net.clientHistory k actions) (net.serverHistory i actions))
    (hkept : net'.server.connections[i]? ≠ some .turnedAway) :
    Joined codec registry k i (net.clientHistory k actions) (net.serverHistory i actions) net' := by
  refine Run.induct (P := fun as m => (∀ a ∈ as, a.isPeaceful k i) →
    Moderate codec (net.clientHistory k as) (net.serverHistory i as) →
    m.server.connections[i]? ≠ some .turnedAway →
    Joined codec registry k i (net.clientHistory k as) (net.serverHistory i as) m) ?_ ?_
    actions net' hrun hpeaceful hmoderate hkept
  · exact fun _ _ _ => h
  · intro as m a m' hm ih hstep hpeaceful hmoderate hkept
    have hclient : net.clientHistory k (as ++ [a]) =
        net.clientHistory k as ++ m.clientEvents k a := Run.log_concat hm hstep
    have hserver : net.serverHistory i (as ++ [a]) =
        net.serverHistory i as ++ m.serverEvents i a := Run.log_concat hm hstep
    rw [hclient, hserver] at hmoderate ⊢
    have hbefore := ih (fun b hb => hpeaceful b (List.mem_append_left _ hb)) hmoderate.of_append
      fun hturned => hkept (turnedAway_step hstep hturned)
    exact hbefore.step hstep (hpeaceful a (List.mem_append_right _ List.mem_cons_self)) hmoderate
      hkept

/-- The lines lead to connections that there are. -/
def Leads (net : Network) : Prop := ∀ l ∈ net.lines, l.connection < net.server.connections.length

theorem Leads.set_line (h : net.Leads) {l l' : Line} (hl : net.lines[j]? = some l)
    (hconnection : l'.connection = l.connection) : (net.setLine j l').Leads := by
  intro x hx
  rcases List.mem_or_eq_of_mem_set hx with hx | rfl
  · exact h x hx
  · rw [hconnection]
    exact h l (List.mem_of_getElem? hl)

theorem Leads.set_server (h : net.Leads) {b : Server.Action} {s : Server}
    (hb : net.server.step b = some s) : Leads { net with server := s } :=
  fun l hl => Nat.lt_of_lt_of_le (h l hl) (Server.length_connections_step hb)

theorem Leads.step (h : net.Leads) {a : Action} (hstep : net.step a = some net') : net'.Leads := by
  cases a with
  | dial d =>
    obtain ⟨client, sink, -, rfl⟩ := step_dial hstep
    intro l hl
    rw [List.length_append]
    rcases List.mem_append.mp hl with hl | hl
    · exact Nat.lt_add_right _ (h l hl)
    · obtain rfl := List.mem_singleton.mp hl
      exact Nat.lt_succ_self _
  | client j a =>
    obtain ⟨l, c, hl, -, -, rfl⟩ := step_client hstep
    exact h.set_line hl rfl
  | server a =>
    obtain ⟨-, s, hs, rfl⟩ := step_server hstep
    exact h.set_server hs
  | carryUp j most =>
    obtain ⟨l, s, hl, hs, rfl⟩ := step_carryUp hstep
    exact (h.set_server hs).set_line hl rfl
  | carryDown j most =>
    obtain ⟨l, hl, rfl⟩ := step_carryDown hstep
    exact h.set_line hl rfl
  | endUp j =>
    obtain ⟨l, s, -, -, hs, rfl⟩ := step_endUp hstep
    exact h.set_server hs
  | endDown j =>
    obtain ⟨l, c, hl, -, -, rfl⟩ := step_endDown hstep
    exact h.set_line hl rfl

theorem Leads.of_run (hempty : net.lines = []) {actions : List Action}
    (hrun : net.run actions = some net') : net'.Leads := by
  refine Run.keeps (P := Leads) (fun h hstep => h.step hstep) ?_ hrun
  intro l hl
  rw [hempty] at hl
  cases hl

/-- **A client that has just connected** is joined to its connection. -/
theorem joined_of_dial {d : Dialing} (hleads : net.Leads) (hoptions : d.options = .forCodec codec)
    (hstep : net.step (.dial d) = some net') :
    Joined codec net.server.registry net.lines.length net.server.connections.length [] [] net' := by
  obtain ⟨client, sink, hconnect, rfl⟩ := step_dial hstep
  rw [hoptions] at hconnect
  have hclient := Client.Traced.init hconnect SinkBehaviour.accepts_faithful ⟨rfl, rfl⟩
  refine ⟨⟨_, _, List.getElem?_concat_length, rfl, List.getElem?_concat_length, ?_⟩, ?_, .refl _,
    nofun⟩
  · exact ⟨hclient, .opening rfl rfl rfl, Nat.zero_le _, rfl, Nat.le_refl 0⟩
  · intro j l hj hl
    rcases getElem?_of_concat hl with hl | ⟨rfl, -⟩
    · exact Nat.ne_of_lt (hleads l (List.mem_of_getElem? hl))
    · exact absurd rfl hj

end Network

end WireCall
