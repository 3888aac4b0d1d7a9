import WireCall.Proofs.Client.Settling
import WireCall.Proofs.Message.Cursor
import WireCall.Proofs.Registry.Resolution
import WireCall.Proofs.Server.Records

/-!
# No body is ever missing

A server reads the body of a request right behind its header, and a client that of a response, so
the body is always there. On the server, no request is refused for a missing body
(`Server.provided_of_run`); on the client, no call is completed by a reply that could not be taken
(`Client.received_of_run`): whatever is wrong with a reply, its caller finds out. Both go back to
the reader, which follows the frames of its stream (`Reader.follows`).
-/

namespace WireCall

open Serving (Move Event)

/-! ## The server -/

/-- A request is never refused for a body that is not there. -/
theorem Registry.prepare_ne_missing (r : Registry) (c : Codec) (request : String) (body : Bytes) :
    r.prepare c request body ≠ .error (.readArgument .noPendingBody) := by
  intro h
  rcases bind_eq_error.mp h with hlookup | ⟨⟨service, m⟩, -, hargument⟩
  · have hresolve : r.resolve request = .error (.readArgument .noPendingBody) := by
      rw [resolve, hlookup]
      rfl
    obtain ⟨-, he⟩ | ⟨before, behind, -, ⟨-, he⟩ | ⟨s, -, -, he⟩⟩ := resolve_eq_error.mp hresolve
    · cases he
    · cases he
    · cases he
  · rcases bind_eq_error.mp hargument with hdecode | ⟨v, -, hdone⟩
    · obtain ⟨e, hdecode, he⟩ := exists_of_mapError hdecode
      obtain rfl := ServeError.readArgument.inj he
      exact c.decode_ne_noPendingBody _ _ hdecode
    · cases hdone

/-- Whether all requests that wait for their calls have been read with their bodies. -/
def Serving.Provided (c : Serving) : Prop :=
  ∀ q : Request, .waiting q ∈ c.tasks → q.call ≠ .error (.readArgument .noPendingBody)

theorem Serving.Move.provided {registry : Registry} {c c' : Serving} {ev : List Event}
    (hmove : Move registry c ev c') (h : c.Provided) : c'.Provided := by
  -- in most moves a task goes on, and does not wait any longer
  have goes : ∀ {t : Nat} {task : Task}, (∀ q, task ≠ .waiting q) → ∀ q : Request,
      .waiting q ∈ c.tasks.set t task → q.call ≠ .error (.readArgument .noPendingBody) := by
    intro t task htask q hq
    rcases List.mem_or_eq_of_mem_set hq with hq | hq
    · exact h q hq
    · exact absurd hq.symm (htask q)
  cases hmove with
  | asks hreading hread hbody =>
    intro q hq
    rcases List.mem_append.mp hq with hq | hq
    · exact h q hq
    · obtain rfl := Task.waiting.inj (List.mem_singleton.mp hq)
      exact registry.prepare_ne_missing _ _ _
  | refuses htask => exact goes (by simp)
  | calls htask => exact goes (by simp)
  | sleeps htask => exact goes (by simp)
  | wakes htask => exact goes (by simp)
  | responds htask hwrite => exact goes (by simp)
  | breaks htask hwrite => exact goes (by simp)
  | _ => exact h

namespace Server

variable {s s' : Server} {actions : List Action}

/-- Whether all requests on all connections have been read with their bodies. -/
def Provided (s : Server) : Prop := ∀ i c, s.serving? i = some c → c.Provided

theorem Provided.step {a : Action} (h : s.Provided) (hstep : s.step a = some s') :
    s'.Provided := by
  intro i c' hc'
  cases hc : s.serving? i with
  | none =>
    obtain ⟨rfl, -⟩ := eq_negotiate_of_serving hc hstep hc'
    intro q hq
    rw [tasks_of_negotiate hstep hc'] at hq
    cases hq
  | some c =>
    rcases step_serving hc hstep with ⟨c₁, hc₁, hmove⟩ | ⟨hserved, -⟩
    · obtain rfl := Option.some.inj (hc₁.symm.trans hc')
      exact hmove.provided (h i c hc)
    · cases hserved.symm.trans (serving?_eq_some.mp hc')

/-- **The body of a request is never missing** on a server. -/
theorem provided_of_run {settings : ServerSettings} {registry : Registry}
    (hrun : run { settings, registry } actions = some s) : s.Provided := by
  refine Run.keeps (fun h hstep => h.step hstep) ?_ hrun
  intro i c hc
  cases serving?_eq_some.mp hc

end Server

/-! ## The client -/

namespace Client

variable {c c' : Client}

/-- Whether no call has been completed by a reply that could not be taken. -/
def Received (c : Client) : Prop := ∀ n e, (n, .error (.decodeReply e)) ∉ c.completions

theorem Received.congr (h : c.Received) (hsame : c'.completions = c.completions) :
    c'.Received := by
  intro n e
  rw [hsame]
  exact h n e

theorem Received.complete (h : c.Received) {n : Nat} {r : Except CallError Bytes}
    (hr : ∀ e, r ≠ .error (.decodeReply e)) : (c.complete n r).Received := by
  intro m e hmem
  rcases List.mem_append.mp hmem with hmem | hmem
  · exact h m e hmem
  · exact hr e (Prod.mk.inj (List.mem_singleton.mp hmem)).2.symm

theorem teardownError_ne (reason : CallError) (e : WireError) :
    teardownError reason ≠ .decodeReply e := by
  intro h
  cases reason <;> cases h

theorem Received.failAll (h : c.Received) (table : List (UInt64 × Nat)) (reason : CallError) :
    (c.failAll table reason).Received := by
  intro n e hmem
  rcases List.mem_append.mp hmem with hmem | hmem
  · exact h n e hmem
  · obtain ⟨p, -, hp⟩ := List.mem_map.mp hmem
    exact teardownError_ne reason e (Except.error.inj (Prod.mk.inj hp).2)

theorem outcome_ne_decodeReply (m : Header × Bytes) (e : WireError) :
    Message.outcome m ≠ .error (.decodeReply e) := by
  intro h
  rw [Message.outcome] at h
  split at h
  · cases h
  · cases h

theorem Received.abort (h : c.Received) (seq : UInt64) (e : WireError) :
    (c.abort seq e).Received := by
  have hall : (Client.failAll { c with lost := true, closeRequested := true, pending := [] }
      (without c.pending seq) (.wire e)).Received := Received.failAll (h.congr rfl) _ _
  rw [Client.abort]
  split
  · exact hall.complete (by simp)
  · exact hall

theorem Received.step {a : Action} (h : c.Received) (hstep : c.step a = some c') :
    c'.Received := by
  cases move_of_step hstep with
  | misissues | refuses => exact Received.complete (h.congr rfl) (by simp)
  | @breaks _ _ _ writer =>
    have hafter : Received { c with writer, holder := none } := h.congr rfl
    exact hafter.abort _ _
  | hears => exact Received.complete (h.congr rfl) (outcome_ne_decodeReply _)
  | tells => exact Received.failAll (h.congr rfl) _ _
  | _ => exact h.congr rfl

/-- **The body of a response is never missing** on a client. -/
theorem received_of_run {o : Options} {source : Source} {sink sink' : Sink} {actions : List Action}
    (hconnect : connect o source sink = (.ok c, sink')) (hrun : c.run actions = some c') :
    c'.Received := by
  refine Run.keeps (fun h hstep => h.step hstep) ?_ hrun
  obtain ⟨reader, writer, rfl⟩ := exists_of_connect hconnect
  exact fun _ _ => List.not_mem_nil

end Client

/-! ## Readers, servers and clients -/

/-- **A reader follows the frames of its stream, and no body is ever missing.** Whatever is done
with a reader, and however its stream arrives, the frames it obtains are those of the stream in
order; a frame whose header cannot be decoded counts, and the next read goes on behind it. The body
of a frame can be had once, right behind its header, and is missing otherwise; what is done with it
has no influence on the headers. So in every run of a server no request is refused because its body
is missing, and in every run of a client no call is completed by a reply that could not be taken. -/
theorem Reader.follows_frames :
    (∀ (c : Codec) (buffered : Bytes) (source : Source) (ops : List Operation),
      (make c buffered source).Follows ops) ∧
    (∀ (settings : ServerSettings) (registry : Registry) (actions : List Server.Action)
      (s : Server), Server.run { settings, registry } actions = some s → s.Provided) ∧
    ∀ (o : Options) (source : Source) (sink sink' : Sink) (c c' : Client)
      (actions : List Client.Action), Client.connect o source sink = (.ok c, sink') →
      c.run actions = some c' → c'.Received := by
  refine ⟨?_, ?_, ?_⟩
  · intro c buffered source ops
    exact follows rfl ops
  · intro settings registry actions s hrun
    exact Server.provided_of_run hrun
  · intro o source sink sink' c c' actions hconnect hrun
    exact Client.received_of_run hconnect hrun

/-- A frame with a header that is none. -/
def garbled : Frame := .make [] [0x2a]

/-- The frame of a request, in the compact encoding. -/
def sumFrame : Frame := .make [0x07, 0x46, 0x6f, 0x6f, 0x2e, 0x53, 0x75, 0x6d, 0x01, 0x00] [0x37]

/-- A reader before those two frames. -/
def beforeGarbled : Reader :=
  .make .compact (garbled.fixed.encode ++ [0x2a])
    ⟨[sumFrame.fixed.encode ++ (sumFrame.header ++ sumFrame.body)], none⟩

/-- What follows a frame whose header cannot be decoded, a request that is read, and a response. -/
theorem Reader.follows_frames_garbled :
    (beforeGarbled.after [.header]).takeBody.1 = .error .noPendingBody ∧
    (beforeGarbled.after [.header, .take]).readHeader.1 = .got ⟨"Foo.Sum", 1, ""⟩ ∧
    (beforeGarbled.after [.header, .take, .header]).takeBody.1 = .ok [0x37] ∧
    (∃ s c q, Server.run { registry := Server.offering Demo.service }
        (Server.opening ++ [.negotiate 0, .receive 0 Server.sumRequest, .read 0]) = some s ∧
      s.serving? 0 = some c ∧ .waiting q ∈ c.tasks ∧
      q.call ≠ .error (.readArgument .noPendingBody)) ∧
    ∃ c₀ sink c, Client.connect .default {} { behaviour := .faithful } = (.ok c₀, sink) ∧
      c₀.run [.issue "Foo.Sum" ⟨.unit, ()⟩, .register 0, .write,
        .receive (sumFrame.fixed.encode ++ (sumFrame.header ++ sumFrame.body)), .read] = some c ∧
      c.completions.length = 1 ∧ c.Received := by
  obtain ⟨hfollows, hprovided, hreceived⟩ := follows_frames
  have hgarbled : beforeGarbled.frame? = some garbled := by decide +kernel
  have hsum : (beforeGarbled.after [.header, .take]).frame? = some sumFrame := by decide +kernel
  have hbad : (Header.decode .compact garbled.header).toOption = none := by decide +kernel
  have hgood : Header.decode .compact sumFrame.header = .ok ⟨"Foo.Sum", 1, ""⟩ := by
    refine ok_of_toOption ?_
    decide +kernel
  have hreader : ∀ ops, beforeGarbled.Follows ops := hfollows _ _ _
  refine ⟨?_, ?_, ?_, ?_, ?_⟩
  · refine (hreader [.header]).untaken.mpr ?_
    rintro ⟨f, hbehind⟩
    replace hbehind : beforeGarbled.Behind ([] ++ [.header]) f := hbehind
    obtain ⟨hframe, h, hheader⟩ := behind_concat_header.mp hbehind
    obtain rfl := Option.some.inj (hgarbled.symm.trans hframe)
    cases hbad.symm.trans (congrArg Except.toOption hheader)
  · rw [((hreader _).header sumFrame hsum).1, heading, show beforeGarbled.codec = .compact from rfl,
      hgood]
  · refine ((hreader _).taken _).mpr ⟨sumFrame, ?_, rfl⟩
    show beforeGarbled.Behind ([.header, .take] ++ [.header]) sumFrame
    exact behind_concat_header.mpr ⟨hsum, _, hgood⟩
  · have hends : (Server.run { registry := Server.offering Demo.service }
        (Server.opening ++ [.negotiate 0, .receive 0 Server.sumRequest, .read 0])).any (fun s =>
          (s.serving? 0).any fun c => c.tasks.any fun task => task.work = 3) = true := by
      decide +kernel
    obtain ⟨s, hrun, hs⟩ := (Option.any_eq_true _ _).mp hends
    obtain ⟨c, hc, htasks⟩ := (Option.any_eq_true _ _).mp hs
    obtain ⟨task, htask, hwaits⟩ := List.any_eq_true.mp htasks
    cases task with
    | waiting q => exact ⟨s, c, q, hrun, hc, htask, hprovided _ _ _ _ hrun 0 c hc q htask⟩
    | _ => cases hwaits
  · have hends : ((Client.connect .default {} { behaviour := .faithful }).1.toOption.bind
        (Client.run · [.issue "Foo.Sum" ⟨.unit, ()⟩, .register 0, .write,
          .receive (sumFrame.fixed.encode ++ (sumFrame.header ++ sumFrame.body)), .read])).any
        (fun c => c.completions.length = 1) = true := by
      decide +kernel
    obtain ⟨c₀, sink, c, hconnect, hrun, hone⟩ := Client.exists_run hends
    exact ⟨c₀, sink, c, hconnect, hrun, of_decide_eq_true hone,
      hreceived _ _ _ _ _ _ _ hconnect hrun⟩

end WireCall
