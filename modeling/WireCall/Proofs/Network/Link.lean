import WireCall.Network
import WireCall.Proofs.Client.Trace
import WireCall.Proofs.Registry
import WireCall.Proofs.Server.Opening

/-!
# A client and its connection

What a client has written and what its connection has read of it, and the other way round, are parts
of the same two streams (`Network.Link`): the connection reads the requests in the order in which
they were written, and the client reads the responses in theirs. So the requests that a connection
has read are the first of those the client has sent, and a response bears the number of the request
of its task.

Every step of a network keeps this for each line, together with what has been said about the client
and about the connection (`Network.Joined.step`), as long as both stay in use and all messages go
into frames.
-/

namespace WireCall

namespace Network

open Serving (answers requests questions written invocations)
open Client (issues sent arrivals heard)

/-! ## Histories -/

/-- What an action does to the server. -/
def serverAction? (net : Network) : Action → Option Server.Action
  | .dial _ => some (.arrive { behaviour := .faithful })
  | .server a => some a
  | .carryUp k most =>
    net.lines[k]?.map fun l => .receive l.connection (l.underwayUp.take most)
  | .endUp k => net.lines[k]?.map fun l => .hangUp l.connection .finished
  | _ => none

/-- What an action does to the client of a line. -/
def clientAction? (k : Nat) (net : Network) : Action → Option Client.Action
  | .client j a => if j = k then some a else none
  | .carryDown j most =>
    if j = k then net.lines[k]?.map fun l => .receive ((net.underwayDown l).take most) else none
  | .endDown j => if j = k then some (.hangUp .finished) else none
  | _ => none

/-- The events that a step leaves on a connection. -/
def serverEvents (i : Nat) (net : Network) (a : Action) : List Serving.Event :=
  match net.serverAction? a with
  | some b => net.server.events i b
  | none => []

/-- The events that a step leaves on the client of a line. -/
def clientEvents (k : Nat) (net : Network) (a : Action) : List Client.Event :=
  match net.lines[k]?, clientAction? k net a with
  | some l, some b => l.client.events b
  | _, _ => []

/-- **The history of a connection** in a run. -/
def serverHistory (i : Nat) (net : Network) (actions : List Action) : List Serving.Event :=
  Run.log step (serverEvents i) net actions

/-- **The history of the client of a line** in a run. -/
def clientHistory (k : Nat) (net : Network) (actions : List Action) : List Client.Event :=
  Run.log step (clientEvents k) net actions

/-- The call that an action issues on the client of a line, if it does. -/
def issuedOn? (k : Nat) : Action → Option (String × Datum)
  | .client j a => if j = k then a.issued? else none
  | _ => none

theorem issues_clientEvents {k : Nat} {net net' : Network} {a : Action}
    (hstep : net.step a = some net') : issues (net.clientEvents k a) = (issuedOn? k a).toList := by
  have hnone : issues [] = [] := rfl
  unfold clientEvents
  cases hl : net.lines[k]? with
  | none =>
    cases a with
    | client j b =>
      have hj : j ≠ k := by
        rintro rfl
        simp [step, hl] at hstep
      simp [issuedOn?, hj, hnone]
    | _ => rfl
  | some l =>
    cases a with
    | client j b =>
      by_cases hj : j = k <;> simp [clientAction?, issuedOn?, hj, hnone, Client.issues_events]
    | carryDown j most =>
      by_cases hj : j = k <;>
        simp [clientAction?, issuedOn?, hj, hl, hnone, Client.issues_events, Client.Action.issued?]
    | endDown j =>
      by_cases hj : j = k <;>
        simp [clientAction?, issuedOn?, hj, hnone, Client.issues_events, Client.Action.issued?]
    | _ => rfl

/-- **The calls in the history of a client** are those that the actions of the run issue. -/
theorem issues_clientHistory {k : Nat} {net net' : Network} {actions : List Action}
    (hrun : net.run actions = some net') :
    issues (net.clientHistory k actions) = actions.filterMap (issuedOn? k) := by
  refine Run.induct
    (P := fun as _ => issues (net.clientHistory k as) = as.filterMap (issuedOn? k)) rfl ?_
    actions net' hrun
  intro as m a s' hm ih hstep
  have hhistory : net.clientHistory k (as ++ [a]) =
      net.clientHistory k as ++ m.clientEvents k a := Run.log_concat hm hstep
  rw [hhistory, Client.issues_append, ih, issues_clientEvents hstep, List.filterMap_append]
  cases h : issuedOn? k a <;> simp [h]

/-! ## The two streams of a line -/

/-- Whether all messages of a client and its connection go into frames. -/
structure Fit (codec : Codec) (asked : List Client.Event) (done : List Serving.Event) : Prop where
  sent : ∀ m ∈ sent asked, Message.Fits codec m
  answers : ∀ a ∈ answers done, Message.Fits codec a.2.message

/-- **How a client and its connection stand** after the events on both: what has arrived at the
connection is the front of what the client has written, and the other way round. -/
structure Link (codec : Codec) (asked : List Client.Event) (done : List Serving.Event) (l : Line)
    (conn : Connection) : Prop where
  client : Client.Traced codec (Options.line codec ++ [0x0a]) asked l.client
  reached : Server.Reached codec (l.client.writer.sink.taken.take l.up) done conn
  up_le : l.up ≤ l.client.writer.sink.taken.length
  down : arrivals asked = (written codec done).take l.down
  down_le : l.down ≤ (written codec done).length

variable {codec : Codec} {asked : List Client.Event} {done : List Serving.Event} {l : Line}
  {conn : Connection}

/-- The messages of a front of the histories go into frames, if all do. -/
theorem Fit.mono {asked' : List Client.Event} {done' : List Serving.Event}
    (h : Fit codec asked' done') (hasked : asked <+: asked') (hdone : done <+: done') :
    Fit codec asked done := by
  obtain ⟨asked'', rfl⟩ := hasked
  obtain ⟨done'', rfl⟩ := hdone
  refine ⟨fun m hm => h.sent m ?_, fun a ha => h.answers a ?_⟩
  · rw [Client.sent_append]
    exact List.mem_append_left _ hm
  · rw [Serving.answers_append]
    exact List.mem_append_left _ ha

namespace Link

variable (h : Link codec asked done l conn) (hfit : Fit codec asked done)
include h hfit

/-- What the client has written is its line and its requests. -/
theorem splits_up : ∃ whole, l.client.writer.sink.taken.take l.up ++ l.underwayUp =
    Options.line codec ++ 0x0a :: whole ∧ Message.Splits codec whole (sent asked) [] := by
  refine ⟨(sent asked).flatMap (Message.bytes codec), ?_, ?_⟩
  · rw [Line.underwayUp, List.take_append_drop, h.client.speaks.taken, List.append_assoc]
    rfl
  · simpa using Message.splits_bytes hfit.sent []

/-- The messages that have not been read by the client are the last responses. -/
theorem splits_down : ∃ more, ((answers done).map fun a => a.2.message) = heard asked ++ more ∧
    Message.Splits codec (l.client.reader.bytes ++ (written codec done).drop l.down) more [] := by
  have hfits : ∀ m ∈ (answers done).map fun a => a.2.message, Message.Fits codec m := by
    intro m hm
    obtain ⟨a, ha, rfl⟩ := List.mem_map.mp hm
    exact hfit.answers a ha
  have hwhole := Message.splits_bytes hfits []
  rw [List.flatMap_map, List.append_nil] at hwhole
  refine h.client.hears.splits.behind ?_
  rw [h.down, List.take_append_drop]
  exact hwhole

theorem opens : Server.Opens codec (l.client.writer.sink.taken.take l.up) := by
  obtain ⟨whole, hwhole, hsplits⟩ := h.splits_up hfit
  exact ⟨_, _, whole, hwhole, hsplits⟩

/-- **The requests that have been read** are the first of those that were sent. -/
theorem questions_prefix : questions done <+: sent asked := by
  obtain ⟨whole, hwhole, hsplits⟩ := h.splits_up hfit
  exact h.reached.questions_prefix hwhole hsplits

/-- A request that has been read is the one that was sent in its place. -/
theorem sent_of_request {t : Nat} {q : Request × Bytes} (hq : (requests done)[t]? = some q) :
    (sent asked)[t]? = some (q.1.header, q.2) := by
  obtain ⟨more, hmore⟩ := h.questions_prefix hfit
  have hquestion : (questions done)[t]? = some (q.1.header, q.2) := by
    rw [questions, List.getElem?_map, hq]
    rfl
  rw [← hmore, List.getElem?_append_left (List.getElem?_eq_some_iff.mp hquestion).1]
  exact hquestion

/-- **A response bears the number** of the request of its task. -/
theorem seq_of_answer {t : Nat} {r : Response} (hr : (t, r) ∈ answers done) :
    r.header.seq.toNat = t + 1 ∧ t < (sent asked).length := by
  obtain ⟨tasks, hworks⟩ := h.reached.works
  obtain ⟨q, result, hq, -, rfl⟩ := hworks.answered hr
  have hsent := h.sent_of_request hfit hq
  obtain ⟨n, hasks⟩ := h.client.speaks.asks hsent
  obtain ⟨call, -, -, hnumber, hheader⟩ := hasks.call
  have hseq : (Response.make codec q.1.header result).header.seq = q.1.header.seq := by
    cases result <;> rfl
  refine ⟨?_, (List.getElem?_eq_some_iff.mp hsent).1⟩
  rw [hseq]
  simp only at hheader
  rw [hheader]
  exact hnumber

/-- What has been heard are responses, each of its own task. -/
theorem mem_answers_of_heard {m : Header × Bytes} (hm : m ∈ heard asked) :
    ∃ a ∈ answers done, a.2.message = m := by
  obtain ⟨more, hmore, -⟩ := h.splits_down hfit
  have hmem : m ∈ (answers done).map fun a => a.2.message := by
    rw [hmore]
    exact List.mem_append_left _ hm
  exact List.mem_map.mp hmem

/-- **The next response** is one that is still to come. -/
theorem expects : Client.Expects codec asked l.client := by
  intro m rest hnext
  obtain ⟨more, hmore, hsplits⟩ := h.splits_down hfit
  obtain ⟨more', rfl, -⟩ := Message.Splits.behind (.cons hnext (.nil rest)) hsplits
  rw [List.singleton_append] at hmore
  obtain ⟨before, rest', hanswers, hbefore, hrest⟩ := List.map_eq_append_iff.mp hmore
  obtain ⟨⟨t, r⟩, after, rfl, rfl, -⟩ := List.map_eq_cons_iff.mp hrest
  have hmem : (t, r) ∈ answers done := by
    rw [hanswers]
    exact List.mem_append_right _ List.mem_cons_self
  obtain ⟨hnumber, hlt⟩ := h.seq_of_answer hfit hmem
  refine ⟨⟨Nat.lt_of_lt_of_eq (Nat.succ_pos t) hnumber.symm,
    Nat.le_trans (Nat.le_of_eq hnumber) hlt⟩, ?_⟩
  intro m' hm' heq
  -- an earlier response under the same number would be one of the same task
  rw [← hbefore] at hm'
  obtain ⟨⟨u, r'⟩, hu, rfl⟩ := List.mem_map.mp hm'
  have hmem' : (u, r') ∈ answers done := by
    rw [hanswers]
    exact List.mem_append_left _ hu
  obtain ⟨hnumber'', -⟩ := h.seq_of_answer hfit hmem'
  have heq' : r'.header.seq = r.header.seq := heq
  obtain ⟨tasks, hworks⟩ := h.reached.works
  have honce := hworks.once
  rw [hanswers, List.map_append, List.nodup_append] at honce
  refine honce.2.2 u (List.mem_map_of_mem hu) t ?_ ?_
  · exact List.mem_map_of_mem List.mem_cons_self
  · rw [heq'] at hnumber''
    omega

theorem front : ∃ t m rest, Message.next? codec (l.client.reader.bytes ++ t) = some (m, rest) := by
  obtain ⟨more, -, hsplits⟩ := h.splits_down hfit
  exact hsplits.exists_next?

end Link

/-! ## Steps on one line -/

theorem taken_append {ev : List Client.Event} {c c' : Client} {opening : Bytes}
    (h : Client.Traced codec opening asked c) (h' : Client.Traced codec opening (asked ++ ev) c') :
    c.writer.sink.taken <+: c'.writer.sink.taken := by
  rw [h.speaks.taken, h'.speaks.taken, Client.sent_append, List.flatMap_append, ← List.append_assoc]
  exact List.prefix_append _ _

/-- The next elements behind the first ones. -/
theorem take_append_take {α : Type} (whole : List α) (n most : Nat) :
    whole.take n ++ (whole.drop n).take most =
      whole.take (n + ((whole.drop n).take most).length) := by
  rw [List.take_add, List.length_take]
  refine congrArg (whole.take n ++ ·) (List.take_eq_take_iff.mpr ?_)
  omega

theorem take_front {α : Type} {front whole : List α} (h : front <+: whole) {n : Nat}
    (hn : n ≤ front.length) : whole.take n = front.take n := by
  obtain ⟨back, rfl⟩ := h
  exact List.take_append_of_le_length hn

/-- The client takes a step by itself. -/
theorem Link.client_step (h : Link codec asked done l conn) {a : Client.Action} {c : Client}
    (hstep : l.client.step a = some c) (hown : a.isOwn) (hpeaceful : a.isPeaceful)
    (hfew : (issues asked).length < Client.numbers)
    (hencodes : ∀ call ∈ issues (asked ++ l.client.events a),
      ∃ body, codec.encode call.2.shape call.2.value = .ok body)
    (hfit : Fit codec (asked ++ l.client.events a) done) :
    Link codec (asked ++ l.client.events a) done { l with client := c } conn := by
  have hfit₀ : Fit codec asked done :=
    hfit.mono (List.prefix_append _ _) List.prefix_rfl
  have hclient := h.client.step hstep hpeaceful (h.client.issued.length ▸ hfew)
    (fun method argument ha => by
      subst ha
      refine hencodes (method, argument) ?_
      rw [Client.issues_append]
      exact List.mem_append_right _ List.mem_cons_self)
    hfit.sent (h.expects hfit₀) (h.front hfit₀)
  have htaken := taken_append h.client hclient
  have harrivals : arrivals (l.client.events a) = [] := by
    cases a with
    | receive piece => cases hown
    | write =>
      simp only [Client.events]
      split
      · split <;> rfl
      · rfl
    | read =>
      simp only [Client.events]
      split
      · split <;> rfl
      · rfl
    | _ => rfl
  refine ⟨hclient, ?_, Nat.le_trans h.up_le htaken.length_le, ?_, h.down_le⟩
  · simp only
    rw [take_front htaken h.up_le]
    exact h.reached
  · rw [Client.arrivals_append, harrivals, List.append_nil]
    exact h.down

/-- Bytes of the connection reach the client. -/
theorem Link.carry_down (h : Link codec asked done l conn) (most : Nat) :
    Link codec (asked ++ [.arrived (((written codec done).drop l.down).take most)]) done
      { l with
        client := { l.client with
          reader := l.client.reader.arrive (((written codec done).drop l.down).take most) }
        down := l.down + (((written codec done).drop l.down).take most).length } conn := by
  refine ⟨h.client.receive _, h.reached, h.up_le, ?_, ?_⟩
  · rw [Client.arrivals_append, h.down]
    simp only [arrivals, List.flatMap_cons, List.flatMap_nil, List.append_nil]
    exact take_append_take _ _ _
  · simp only [List.length_take, List.length_drop]
    have := h.down_le
    omega

/-- The server takes a step, which may bring bytes of the client to the connection. -/
theorem Link.server_step (h : Link codec asked done l conn) {s s' : Server} {i : Nat}
    (hconn : s.connections[i]? = some conn) {a : Server.Action} (hstep : s.step a = some s')
    (hpeaceful : a.isPeaceful i) (hfit : Fit codec asked (done ++ s.events i a))
    (hkept : s'.connections[i]? ≠ some .turnedAway) {up : Nat}
    (hup : l.client.writer.sink.taken.take l.up ++ Server.received i a =
      l.client.writer.sink.taken.take up)
    (hle : up ≤ l.client.writer.sink.taken.length) :
    ∃ conn', s'.connections[i]? = some conn' ∧
      Link codec asked (done ++ s.events i a) { l with up } conn' := by
  have hfit₀ : Fit codec asked done :=
    hfit.mono List.prefix_rfl (List.prefix_append _ _)
  obtain ⟨conn', hconn', hreached⟩ := h.reached.step hconn hstep hpeaceful (h.opens hfit₀)
    hfit.answers hkept
  rw [hup] at hreached
  have hwritten : written codec done <+: written codec (done ++ s.events i a) := by
    rw [Serving.written_append]
    exact List.prefix_append _ _
  refine ⟨conn', hconn', h.client, hreached, hle, ?_, Nat.le_trans h.down_le hwritten.length_le⟩
  simp only
  rw [take_front hwritten h.down_le]
  exact h.down

end Network

end WireCall
