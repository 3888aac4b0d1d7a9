import WireCall.Proofs.Message.Reader
import WireCall.Proofs.Server.Connections

/-!
# What a step of the server does to one connection

A connection that is being served changes in a few ways only (`Serving.Move`), whatever the server
does. Each of them leaves its *events*, which are what has to be remembered of a run: the bytes that
arrived, the requests that were read, the calls that were made and the responses that were written.
`Server.step_serving` says that every step of the server is one of these moves, or closes a
connection on which everything is finished, or lets the connection alone.
-/

namespace WireCall

/-- What a handler is going to do, asked with the memory of its service. -/
def Prepared.plan (p : Prepared) (memory : Nat) : Plan p.method.reply.shape.Value :=
  (p.method.handler memory p.argument).2

/-- What a prepared call comes to, asked with the memory of its service. -/
def Prepared.result (p : Prepared) (c : Codec) (request : String) (memory : Nat) :
    Except String Bytes :=
  p.method.answer c request (p.plan memory).outcome

namespace Request

/-- A request is what its header and its body make it, and uses up the body. -/
theorem read_eq (registry : Registry) (h : Header) {r : Reader} {body : Bytes}
    (hbody : r.pending = some body) :
    read registry h r =
      (⟨h, registry.prepare r.codec h.method body⟩, { r with pending := none }) := by
  simp only [read]
  cases hlookup : registry.lookup h.method with
  | error e => simp [Registry.prepare, hlookup, Reader.discardBody, bind, Except.bind]
  | ok p => simp [Reader.takeBody, hbody]

end Request

namespace Serving

/-- What has to be remembered of what happens on a connection. -/
inductive Event where
  /-- bytes of the client arrive -/
  | arrived (piece : Bytes)
  /-- a request is read, with the given body -/
  | asked (request : Request) (body : Bytes)
  /-- the call of a task is made, and its handler finds the given memory -/
  | invoked (t : Nat) (p : Prepared) (memory : Nat)
  /-- the response of a task is handed to the writer -/
  | answered (t : Nat) (r : Response)
  /-- the stream of the client ends -/
  | ended (e : Ending)
  /-- the connection is told of a shutdown -/
  | signalled

/-- **What can happen to a connection** under service, and which events that leaves. -/
inductive Move (registry : Registry) (c : Serving) : List Event → Serving → Prop
  | still : Move registry c [] c
  | arrives {piece : Bytes} (hopen : c.reader.source.ending = none) :
      Move registry c [.arrived piece] { c with reader := c.reader.arrive piece }
  | ends {e : Ending} : Move registry c [.ended e] { c with reader := c.reader.finish e }
  | waits {reader : Reader} (hreading : c.reading = true)
      (hread : c.reader.readHeader = (.waits, reader)) : Move registry c [] { c with reader }
  | fails {e : WireError} {reader : Reader} (hreading : c.reading = true)
      (hread : c.reader.readHeader = (.failed e, reader)) :
      Move registry c [] { c with reader, reading := false }
  | asks {h : Header} {body : Bytes} {reader : Reader} (hreading : c.reading = true)
      (hread : c.reader.readHeader = (.got h, reader)) (hbody : reader.pending = some body) :
      Move registry c [.asked ⟨h, registry.prepare reader.codec h.method body⟩ body]
        { c with
          reader := { reader with pending := none }
          tasks := c.tasks ++ [.waiting ⟨h, registry.prepare reader.codec h.method body⟩] }
  | noticesFailure (hreading : c.reading = true) (hfailed : c.writeFailed = true) :
      Move registry c [] { c with reading := false, writeFailed := false }
  | noticesShutdown (hreading : c.reading = true) (hsignalled : c.signalled = true) :
      Move registry c [] { c with reading := false, signalled := false }
  | signals : Move registry c [.signalled] { c with signalled := true }
  /-- a request that cannot be called is answered with the reason -/
  | refuses {t : Nat} {h : Header} {e : ServeError}
      (htask : c.tasks[t]? = some (.waiting ⟨h, .error e⟩)) :
      Move registry c []
        { c with
          tasks := c.tasks.set t (.responding (.make c.writer.codec h (.error e.message))) }
  /-- the handler is called and ends at once -/
  | calls {t : Nat} {h : Header} {p : Prepared} (htask : c.tasks[t]? = some (.waiting ⟨h, .ok p⟩)) :
      Move registry c [.invoked t p (registry.memory p.service)]
        { c with
          tasks := c.tasks.set t (.responding (.make c.writer.codec h
            (p.result c.writer.codec h.method (registry.memory p.service)))) }
  /-- the handler is called and sleeps first -/
  | sleeps {t due : Nat} {h : Header} {p : Prepared}
      (htask : c.tasks[t]? = some (.waiting ⟨h, .ok p⟩)) :
      Move registry c [.invoked t p (registry.memory p.service)]
        { c with
          tasks := c.tasks.set t (.sleeping h due
            (p.result c.writer.codec h.method (registry.memory p.service))) }
  | wakes {t due : Nat} {h : Header} {result : Except String Bytes}
      (htask : c.tasks[t]? = some (.sleeping h due result)) :
      Move registry c []
        { c with tasks := c.tasks.set t (.responding (.make c.writer.codec h result)) }
  | responds {t : Nat} {r : Response} {writer : Writer}
      (htask : c.tasks[t]? = some (.responding r))
      (hwrite : c.writer.writeEncoded r.header r.body = (.ok (), writer)) :
      Move registry c [.answered t r] { c with writer, tasks := c.tasks.set t .finished }
  /-- the response cannot be written -/
  | breaks {t : Nat} {r : Response} {e : WireError} {writer : Writer}
      (htask : c.tasks[t]? = some (.responding r))
      (hwrite : c.writer.writeEncoded r.header r.body = (.error e, writer)) :
      Move registry c [.answered t r]
        { c with writer, writeFailed := true, tasks := c.tasks.set t .finished }

end Serving

namespace Server

open Serving (Event Move)

/-! ## Events -/

/-- The events that a connection under service has of a step of its own. -/
def ownEvents (s : Server) (c : Serving) : Action → List Event
  | .receive _ piece => if c.reader.source.ending.isSome then [] else [.arrived piece]
  | .hangUp _ e => [.ended e]
  | .read _ =>
    match c.reader.readHeader with
    | (.got h, reader) =>
      match reader.pending with
      | some body => [.asked ⟨h, s.registry.prepare reader.codec h.method body⟩ body]
      | none => []
    | _ => []
  | .call _ t =>
    match c.tasks[t]? with
    | some (.waiting ⟨_, .ok p⟩) => [.invoked t p (s.registry.memory p.service)]
    | _ => []
  | .respond _ t =>
    match c.tasks[t]? with
    | some (.responding r) => [.answered t r]
    | _ => []
  | _ => []

/-- The events that a step leaves on a connection. -/
def events (i : Nat) (s : Server) (a : Action) : List Event :=
  match s.serving? i with
  | none => []
  | some c =>
    match a with
    | .shutdown => [.signalled]
    | a => if a.connection? = some i then s.ownEvents c a else []

/-! ## Steps of a connection under service -/

variable {s s' : Server} {i : Nat} {c : Serving}

/-- What a step does to a connection under service: a move, or its end. -/
def Serves (s : Server) (i : Nat) (c : Serving) (a : Action) (s' : Server) : Prop :=
  (∃ c', s'.serving? i = some c' ∧ Move s.registry c (s.events i a) c') ∨
    (s'.connections[i]? = some (.served { c with writer := c.writer.close.2 }) ∧
      c.reading = false ∧ c.tasks.all Task.isFinished ∧ s.events i a = [])

theorem events_own (hc : s.serving? i = some c) {a : Action} (ha : a.connection? = some i) :
    s.events i a = s.ownEvents c a := by
  simp only [events, hc]
  cases a <;> exact if_pos ha

theorem serving?_setServing (hc : s.serving? i = some c) (c' : Serving) :
    (s.setServing i c').serving? i = some c' :=
  serving?_eq_some.mpr (connections_setConnection_self (serving?_eq_some.mp hc) _)

variable (hc : s.serving? i = some c)
include hc

theorem serves_read (hstep : s.read i = some s') : s.Serves i c (.read i) s' := by
  have hevents : s.events i (.read i) = s.ownEvents c (.read i) := events_own hc rfl
  simp only [read, hc] at hstep
  split at hstep
  · rename_i hreading
    split at hstep
    · rename_i reader hread
      obtain rfl := Option.some.inj hstep
      simp only [ownEvents, hread] at hevents
      exact .inl ⟨_, serving?_setServing hc _, hevents ▸ .waits hreading hread⟩
    · rename_i e reader hread
      obtain rfl := Option.some.inj hstep
      simp only [ownEvents, hread] at hevents
      exact .inl ⟨_, serving?_setServing hc _, hevents ▸ .fails hreading hread⟩
    · rename_i h reader hread
      obtain rfl := Option.some.inj hstep
      obtain ⟨body, -, hbody, -, -⟩ := Reader.readHeader_got hread
      simp only [ownEvents, hread, hbody] at hevents
      rw [Request.read_eq _ _ hbody]
      exact .inl ⟨_, serving?_setServing hc _, hevents ▸ .asks hreading hread hbody⟩
  · cases hstep

theorem serves_conclude (t : Nat) (h : Header) (result : Except String Bytes) (r : Registry) :
    (Server.conclude { s with registry := r } i c t h result).serving? i =
      some { c with tasks := c.tasks.set t (.responding (.make c.writer.codec h result)) } := by
  simp only [conclude]
  split
  · exact serving?_setServing (s := { s with registry := r }) hc _
  · exact serving?_setServing (s := { s with registry := r }) hc _

theorem serves_call {t : Nat} (hstep : s.call i t = some s') : s.Serves i c (.call i t) s' := by
  have hevents : s.events i (.call i t) = s.ownEvents c (.call i t) := events_own hc rfl
  simp only [call, hc] at hstep
  split at hstep
  · rename_i h e htask
    obtain rfl := Option.some.inj hstep
    simp only [ownEvents, htask] at hevents
    exact .inl ⟨_, serves_conclude hc _ _ _ s.registry, hevents ▸ .refuses htask⟩
  · rename_i h p htask
    simp only [ownEvents, htask] at hevents
    split at hstep
    · obtain rfl := Option.some.inj hstep
      exact .inl ⟨_, serves_conclude hc _ _ _ _, hevents ▸ .calls htask⟩
    · obtain rfl := Option.some.inj hstep
      refine .inl ⟨_, serving?_setServing (s := { s with registry := _ }) hc _, ?_⟩
      exact hevents ▸ .sleeps htask
  · cases hstep

theorem serves_wake {t : Nat} (hstep : s.wake i t = some s') : s.Serves i c (.wake i t) s' := by
  have hevents : s.events i (.wake i t) = [] := events_own hc rfl
  simp only [wake, hc] at hstep
  split at hstep
  · rename_i h due result htask
    split at hstep
    · obtain rfl := Option.some.inj hstep
      exact .inl ⟨_, serves_conclude hc _ _ _ s.registry, hevents ▸ .wakes htask⟩
    · cases hstep
  · cases hstep

theorem serves_respond {t : Nat} (hstep : s.respond i t = some s') :
    s.Serves i c (.respond i t) s' := by
  have hevents : s.events i (.respond i t) = s.ownEvents c (.respond i t) := events_own hc rfl
  simp only [respond, hc] at hstep
  split at hstep
  · rename_i r htask
    simp only [ownEvents, htask] at hevents
    split at hstep
    · rename_i writer hwrite
      obtain rfl := Option.some.inj hstep
      exact .inl ⟨_, serving?_setServing hc _, hevents ▸ .responds htask hwrite⟩
    · rename_i e writer hwrite
      obtain rfl := Option.some.inj hstep
      exact .inl ⟨_, serving?_setServing hc _, hevents ▸ .breaks htask hwrite⟩
  · cases hstep

theorem serves_close (hstep : s.close i = some s') : s.Serves i c (.close i) s' := by
  simp only [close, hc] at hstep
  split at hstep
  · rename_i hdone
    obtain rfl := Option.some.inj hstep
    refine .inr ⟨connections_setConnection_self (serving?_eq_some.mp hc) _, ?_, hdone.2,
      events_own hc rfl⟩
    simpa using hdone.1
  · cases hstep

theorem serves_notice (hstep : s.noticeFailure i = some s' ∨ s.noticeShutdown i = some s') :
    ∃ c', s'.serving? i = some c' ∧ Move s.registry c [] c' := by
  rcases hstep with hstep | hstep
  · simp only [noticeFailure, hc] at hstep
    split at hstep
    · rename_i h
      obtain rfl := Option.some.inj hstep
      exact ⟨_, serving?_setServing hc _, .noticesFailure h.1 h.2⟩
    · cases hstep
  · simp only [noticeShutdown, hc] at hstep
    split at hstep
    · rename_i h
      obtain rfl := Option.some.inj hstep
      exact ⟨_, serving?_setServing hc _, .noticesShutdown h.1 h.2⟩
    · cases hstep

theorem serves_receive {piece : Bytes} (hstep : s.step (.receive i piece) = some s') :
    s.Serves i c (.receive i piece) s' := by
  have hevents : s.events i (.receive i piece) = s.ownEvents c (.receive i piece) :=
    events_own hc rfl
  obtain rfl := Option.some.inj hstep
  have hconn := serving?_eq_some.mp hc
  have hnew : Server.serving?
      { s with connections := s.connections.modify i (.mapSource (·.arrive piece)) } i =
      some { c with reader := c.reader.arrive piece } := by
    refine serving?_eq_some.mpr ?_
    rw [List.getElem?_modify_eq, hconn]
    rfl
  cases hended : c.reader.source.ending with
  | none =>
    simp only [ownEvents, hended, Option.isSome_none, Bool.false_eq_true, if_false] at hevents
    exact .inl ⟨_, hnew, hevents ▸ .arrives hended⟩
  | some e =>
    -- what arrives behind the end changes nothing
    simp only [ownEvents, hended, Option.isSome_some, if_true] at hevents
    have hsame : c.reader.arrive piece = c.reader := by
      simp [Reader.arrive, Source.arrive, hended]
    rw [hsame] at hnew
    exact .inl ⟨_, hnew, hevents ▸ .still⟩

/-- **Every step of the server** moves a connection under service, or closes it. -/
theorem step_serving {a : Action} (hstep : s.step a = some s') : s.Serves i c a s' := by
  have hconn := serving?_eq_some.mp hc
  by_cases hshutdown : a = .shutdown
  · subst hshutdown
    obtain rfl := Option.some.inj hstep
    refine .inl ⟨{ c with signalled := true }, serving?_eq_some.mpr ?_, ?_⟩
    · rw [List.getElem?_map, hconn]
      rfl
    · simp only [events, hc]
      exact .signals
  by_cases ha : a.connection? = some i
  · cases a with
    | receive j piece => cases ha; exact serves_receive hc hstep
    | hangUp j e =>
      cases ha
      obtain rfl := Option.some.inj hstep
      refine .inl ⟨{ c with reader := c.reader.finish e }, serving?_eq_some.mpr ?_, ?_⟩
      · rw [List.getElem?_modify_eq, hconn]
        rfl
      · rw [events_own hc rfl]
        exact .ends
    | accept j =>
      cases ha
      simp [step, accept, hconn] at hstep
    | serve j =>
      cases ha
      simp [step, hconn] at hstep
    | negotiate j =>
      cases ha
      simp [step, negotiate, hconn] at hstep
    | expire j =>
      cases ha
      simp [step, expire, hconn] at hstep
    | read j => cases ha; exact serves_read hc hstep
    | noticeFailure j =>
      cases ha
      obtain ⟨c', hc', hmove⟩ := serves_notice hc (.inl hstep)
      exact .inl ⟨c', hc', (events_own (a := .noticeFailure i) hc rfl).symm ▸ hmove⟩
    | noticeShutdown j =>
      cases ha
      obtain ⟨c', hc', hmove⟩ := serves_notice hc (.inr hstep)
      exact .inl ⟨c', hc', (events_own (a := .noticeShutdown i) hc rfl).symm ▸ hmove⟩
    | call j t => cases ha; exact serves_call hc hstep
    | wake j t => cases ha; exact serves_wake hc hstep
    | respond j t => cases ha; exact serves_respond hc hstep
    | close j => cases ha; exact serves_close hc hstep
    | _ => cases ha
  · refine .inl ⟨c, serving?_eq_some.mpr (connections_step_ne hstep ha hshutdown hconn), ?_⟩
    have hevents : s.events i a = [] := by
      simp only [events, hc]
      cases a <;> exact if_neg ha
    rw [hevents]
    exact .still

end Server

end WireCall
