import WireCall.Proofs.Network.Lines

/-!
# The results of the calls on a line

Where a client is joined to its connection (`Network.Joined`), each request that the connection has
read is that of one call, and its task is that of the call (`Network.Assigned`). A result of a call
is what the response of its own task says (`Network.Joined.result`), and where nothing is left to do
on the line every call has its result (`Network.Joined.completed`).
-/

namespace WireCall

namespace Response

/-- The response to a call that has replied completes it with the reply. -/
theorem outcome_ok (c : Codec) {h : Header} (herror : h.error = "") (body : Bytes) :
    Message.outcome (make c h (.ok body)).message = .ok body := by
  simp only [make, message, Message.outcome, Header.isError, herror]
  rfl

/-- The response to a call that has failed completes it with the text of the failure. -/
theorem outcome_error (c : Codec) (h : Header) {why : String} (hwhy : why ≠ "") :
    Message.outcome (make c h (.error why)).message = .error (.server why) := by
  have hempty : why.isEmpty = false := by simpa using hwhy
  simp only [make, message, Message.outcome, Header.isError, Header.withError, hempty,
    Bool.not_false, if_true]

/-- Where that text is empty, the call is completed as if it had replied with a unit value. -/
theorem outcome_blank (c : Codec) (h : Header) :
    Message.outcome (make c h (.error "")).message = .ok (unitBody c) := rfl

end Response

/-- Whether a connection is served, and everything that has arrived is read and answered. -/
def Server.Idle (s : Server) (i : Nat) : Prop :=
  ∃ c, s.serving? i = some c ∧ c.tasks.all Task.isFinished ∧ c.reader.Waits

instance Server.decidableIdle (s : Server) (i : Nat) : Decidable (s.Idle i) :=
  match h : s.serving? i with
  | none => isFalse fun ⟨_, hc, _⟩ => by rw [h] at hc; cases hc
  | some c =>
    decidable_of_iff (c.tasks.all Task.isFinished ∧ c.reader.Waits)
      ⟨fun hidle => ⟨c, h, hidle⟩, fun ⟨_, hc, hidle⟩ => Option.some.inj (h.symm.trans hc) ▸ hidle⟩

namespace Network

open Serving (Concludes answers requests questions written invocations)
open Client (issues sent arrivals heard)

variable {net : Network} {k i : Nat} {codec : Codec} {registry : Registry}
  {asked : List Client.Event} {done : List Serving.Event}

/-- **The task of a call**: its request bears the method and the number of the call, and its body is
the encoded argument. -/
structure Assigned (codec : Codec) (done : List Serving.Event) (call : Call) (argument : Datum)
    (t : Nat) (q : Request × Bytes) : Prop where
  number : call.seq.toNat = t + 1
  request : (requests done)[t]? = some q
  header : q.1.header = ⟨call.method, call.seq, ""⟩
  body : codec.encode argument.shape argument.value = .ok q.2

/-- **A line rests** if nothing is left to do on it: all bytes have been carried and read, no call
waits to be written, and all tasks are finished. -/
structure Rests (net : Network) (l : Line) : Prop where
  up : l.underwayUp = []
  down : net.underwayDown l = []
  server : net.server.Idle l.connection
  client : l.client.reader.Waits
  holder : l.client.holder = none
  waiting : ∀ call ∈ l.client.calls, call.waiting = none

instance decidableRests (net : Network) (l : Line) : Decidable (net.Rests l) :=
  decidable_of_iff (l.underwayUp = [] ∧ net.underwayDown l = [] ∧ net.server.Idle l.connection ∧
      l.client.reader.Waits ∧ l.client.holder = none ∧ ∀ call ∈ l.client.calls, call.waiting = none)
    ⟨fun ⟨hup, hdown, hserver, hclient, hholder, hwaiting⟩ =>
      ⟨hup, hdown, hserver, hclient, hholder, hwaiting⟩,
    fun h => ⟨h.up, h.down, h.server, h.client, h.holder, h.waiting⟩⟩

/-! ## What has been sent, read, answered and heard -/

namespace Link

variable {l : Line} {conn : Connection}

/-- The request of a call that has a number has been sent, unless it has the right to write. -/
theorem sent_of_call (h : Link codec asked done l conn) {n : Nat} {call : Call}
    (hcall : l.client.calls[n]? = some call) (hseq : call.seq ≠ 0)
    (hholder : l.client.holder = none) :
    ∃ (t : Nat) (m : Header × Bytes), (sent asked)[t]? = some m ∧ m.1.seq = call.seq := by
  have hpos : 0 < call.seq.toNat := Nat.pos_of_ne_zero fun h0 => hseq (UInt64.toNat.inj h0)
  have hle : call.seq.toNat ≤ (sent asked).length := by
    have hbounded := h.client.books.bounded _ (List.mem_of_getElem? hcall)
    rw [h.client.speaks.registered, hholder] at hbounded
    exact hbounded
  have hlt : call.seq.toNat - 1 < (sent asked).length := by omega
  obtain ⟨n', hasks⟩ := h.client.speaks.asks (List.getElem?_eq_getElem hlt)
  obtain ⟨call', -, -, hnumber, hheader⟩ := hasks.call
  refine ⟨_, _, List.getElem?_eq_getElem hlt, ?_⟩
  rw [hheader]
  exact UInt64.toNat.inj (by rw [hnumber]; omega)

/-- A request that has been sent is answered, once everything is read and all tasks are finished. -/
theorem answer_of_sent {c : Serving} (h : Link codec asked done l (.serving c))
    (hfit : Fit codec asked done) {t : Nat} {m : Header × Bytes} (hm : (sent asked)[t]? = some m)
    (hup : l.underwayUp = []) (hwaits : c.reader.Waits)
    (hfinished : c.tasks.all Task.isFinished) :
    ∃ a ∈ answers done, a.2.message.1.seq = m.1.seq := by
  cases h.reached with
  | opening hopening => cases hopening
  | serving htraced hbytes hundisturbed =>
    have hquestions : sent asked = questions done := by
      obtain ⟨whole, hwhole, hsplits⟩ := h.splits_up hfit
      rw [hup, List.append_nil, ← hbytes] at hwhole
      obtain ⟨-, rfl⟩ := List.cons.inj (List.append_cancel_left hwhole)
      rw [← List.append_nil (_ ++ Serving.input done)] at hsplits
      obtain ⟨more, hmore, hrest⟩ := (htraced.hears.reading hundisturbed.reading).behind hsplits
      have hnext := hwaits.next?_eq_none
      rw [htraced.hears.codec_eq] at hnext
      rw [List.append_nil] at hrest
      rw [hmore, hrest.eq_nil hnext, List.append_nil]
    rw [hquestions, questions, List.getElem?_map, Option.map_eq_some_iff] at hm
    obtain ⟨q, hq, rfl⟩ := hm
    obtain ⟨result, -, hone⟩ := htraced.works.finished hfinished hq
    have hmem := List.mem_singleton_self (Response.make codec q.1.header result)
    rw [← hone, Serving.mem_answersOf] at hmem
    refine ⟨_, hmem, ?_⟩
    cases result <;> rfl

/-- A response that has been given is heard, once everything is read. -/
theorem heard_of_answer (h : Link codec asked done l conn) (hfit : Fit codec asked done)
    {a : Nat × Response} (ha : a ∈ answers done) (hdown : (written codec done).drop l.down = [])
    (hwaits : l.client.reader.Waits) :
    a.2.message ∈ heard asked := by
  obtain ⟨more, hmore, hrest⟩ := h.splits_down hfit
  have hnext := hwaits.next?_eq_none
  rw [h.client.hears.codec_eq] at hnext
  rw [hdown, List.append_nil] at hrest
  rw [hrest.eq_nil hnext, List.append_nil] at hmore
  rw [← hmore]
  exact List.mem_map_of_mem ha

end Link

namespace Joined

variable (h : Joined codec registry k i asked done net) (hfit : Fit codec asked done) {l : Line}
  (hl : net.lines[k]? = some l)
include h hl

theorem link_of_line : l.connection = i ∧ ∃ conn, net.server.connections[i]? = some conn ∧
    Link codec asked done l conn := by
  obtain ⟨l', conn, hl', hconnection, hconn, hlink⟩ := h.link
  obtain rfl := Option.some.inj (hl.symm.trans hl')
  exact ⟨hconnection, conn, hconn, hlink⟩

include hfit

/-- **Each request that has been read** is that of a call, which has been issued with the argument
in it. -/
theorem assigned {t : Nat} {q : Request × Bytes} (hq : (requests done)[t]? = some q) :
    ∃ (n : Nat) (call : Call) (argument : Datum), l.client.calls[n]? = some call ∧
      (issues asked)[n]? = some (call.method, argument) ∧
      Assigned codec done call argument t q := by
  obtain ⟨-, conn, -, hlink⟩ := h.link_of_line hl
  obtain ⟨n, hasks⟩ := hlink.client.speaks.asks (hlink.sent_of_request hfit hq)
  obtain ⟨call, hcall, -, hnumber, hheader⟩ := hasks.call
  obtain ⟨argument, hargument, hencode⟩ := hasks.argument
  have hheader : q.1.header = ⟨call.method, call.seq, ""⟩ := hheader
  refine ⟨n, call, argument, hcall, ?_, hnumber, hq, hheader, hencode⟩
  rw [hargument]
  simp only [hheader]

/-- **A result of a call** is its only one, and what the response of its own task says. -/
theorem result {n : Nat} {call : Call} (hcall : l.client.calls[n]? = some call)
    {r : Except CallError Bytes} (hr : r ∈ l.client.resultsOf n) :
    l.client.resultsOf n = [r] ∧ ∃ argument t q result,
      (issues asked)[n]? = some (call.method, argument) ∧ Assigned codec done call argument t q ∧
      Concludes codec (invocations done t) q.1 result ∧
      r = Message.outcome (Response.make codec q.1.header result).message := by
  obtain ⟨-, conn, -, hlink⟩ := h.link_of_line hl
  have hone : l.client.resultsOf n = [r] := by
    cases hlink.client.books.standing hcall with
    | waits _ _ _ hnone =>
      rw [hnone] at hr
      cases hr
    | pends _ hnone =>
      rw [hnone] at hr
      cases hr
    | done _ _ hone =>
      obtain ⟨r', hr'⟩ := hone
      rw [hr'] at hr ⊢
      rw [List.mem_singleton.mp hr]
  refine ⟨hone, ?_⟩
  -- the result is that of a response under the number of the call
  rw [hlink.client.hears.results hcall] at hr
  obtain ⟨m, hm, rfl⟩ := List.mem_map.mp hr
  obtain ⟨hm, hseq⟩ := List.mem_filter.mp hm
  rw [decide_eq_true_eq] at hseq
  obtain ⟨⟨t, response⟩, ha, rfl⟩ := hlink.mem_answers_of_heard hfit hm
  obtain ⟨tasks, hworks⟩ := hlink.reached.works
  obtain ⟨q, result, hq, hresult, rfl⟩ := hworks.answered ha
  obtain ⟨n', call', argument, hcall', hargument, hassigned⟩ := h.assigned hfit hl hq
  have hsame : call.seq = call'.seq := by
    have hheader : (Response.make codec q.1.header result).header.seq = q.1.header.seq := by
      cases result <;> rfl
    have hseq' : (Response.make codec q.1.header result).header.seq = call.seq := hseq
    rw [← hseq', hheader, hassigned.header]
  have hnonzero : call.seq ≠ 0 := by
    intro h0
    have hnumber := hassigned.number
    rw [← hsame, h0] at hnumber
    simp at hnumber
  obtain rfl := hlink.client.books.distinct hcall hcall' hnonzero hsame
  obtain rfl := Option.some.inj (hcall.symm.trans hcall')
  exact ⟨argument, t, q, result, hargument, hassigned, hresult, rfl⟩

/-- **At rest every call has its result.** -/
theorem completed (hrests : net.Rests l) {n : Nat} (hn : n < l.client.calls.length) :
    ∃ r, l.client.resultsOf n = [r] := by
  obtain ⟨hconnection, conn, hconn, hlink⟩ := h.link_of_line hl
  have hcall := List.getElem?_eq_getElem hn
  cases hlink.client.books.standing hcall with
  | waits _ hwaits =>
    rw [hrests.waiting _ (List.getElem_mem hn)] at hwaits
    cases hwaits
  | done _ _ hone => exact hone
  | pends hmem hnone =>
    exfalso
    obtain ⟨c, hc, hfinished, hwaits⟩ := hrests.server
    rw [hconnection] at hc
    obtain rfl := Option.some.inj (hconn.symm.trans (Server.serving?_eq_some.mp hc))
    -- the request of the call has been sent, read and answered, and the response has been read
    obtain ⟨hnonzero, -⟩ := hlink.client.books.keyed _ hmem
    obtain ⟨t, m, hsent, hseq⟩ := hlink.sent_of_call hcall hnonzero hrests.holder
    obtain ⟨a, ha, haseq⟩ := hlink.answer_of_sent hfit hsent hrests.up hwaits hfinished
    have hheard := hlink.heard_of_answer hfit ha (h.underwayDown hl ▸ hrests.down) hrests.client
    have hresult : Message.outcome a.2.message ∈ l.client.resultsOf n := by
      rw [hlink.client.hears.results hcall]
      refine List.mem_map_of_mem (List.mem_filter.mpr ⟨hheard, decide_eq_true ?_⟩)
      exact haseq.trans hseq
    rw [hnone] at hresult
    cases hresult

end Joined

end Network

end WireCall
