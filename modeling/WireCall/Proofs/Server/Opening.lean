import WireCall.Proofs.Negotiation
import WireCall.Proofs.Server.History

/-!
# How a connection opens

The bytes of a client are its line and whole messages behind it. As they arrive, the connection
passes from the listener through the negotiation into service, and none of the bytes is lost on the
way (`Server.Reached`). Under service it reads on: nothing stops it as long as its responses go into
frames, the server is not shut down and the client does not end its stream. Each step of the server
keeps this (`Server.Reached.step`), unless the connection is turned away.
-/

namespace WireCall

/-- What a connection has to offer that has not been negotiated: the bytes read, the source of all
others, and the sink. -/
def Connection.opening? : Connection → Option (Bytes × Source × Sink)
  | .arrived source sink | .accepted source sink => some ([], source, sink)
  | .negotiating buffer _ source sink => some (buffer, source, sink)
  | _ => none

/-- Whether a connection under service reads on. -/
structure Serving.Undisturbed (c : Serving) : Prop where
  reading : c.reading = true
  writeFailed : c.writeFailed = false
  signalled : c.signalled = false
  ending : c.reader.source.ending = none

namespace Server

open Serving

variable {s s' : Server} {i : Nat}

/-- The bytes that a step brings to a connection. -/
def received (i : Nat) : Action → Bytes
  | .receive j piece => if j = i then piece else []
  | _ => []

/-- Whether a step neither ends a connection nor shuts the server down. -/
def Action.isPeaceful (i : Nat) : Action → Bool
  | .shutdown => false
  | .expire j | .hangUp j _ => j ≠ i
  | _ => true

/-! ## Events -/

theorem events_of_not_served {a : Action} (h : s.serving? i = none) : s.events i a = [] := by
  simp only [events, h]

theorem events_other {a : Action} (ha : a.connection? ≠ some i) (hshutdown : a ≠ .shutdown) :
    s.events i a = [] := by
  apply List.eq_nil_iff_forall_not_mem.mpr
  intro e he
  rcases mem_events he with ⟨hself, -⟩ | ⟨hself, -⟩
  · exact hshutdown hself
  · exact ha hself

theorem received_other {a : Action} (ha : a.connection? ≠ some i) : received i a = [] := by
  cases a with
  | receive j piece => exact if_neg fun h => ha (congrArg some h)
  | _ => rfl

/-- What arrives on a connection under service is noted. -/
theorem input_events {c : Serving} (hc : s.serving? i = some c)
    (hending : c.reader.source.ending = none) {a : Action} (hshutdown : a ≠ .shutdown) :
    input (s.events i a) = received i a := by
  by_cases ha : a.connection? = some i
  · rw [events_own hc ha]
    cases a with
    | receive j piece =>
      cases ha
      simp [ownEvents, hending, input, received]
    | read j =>
      simp only [ownEvents]
      split
      · split <;> rfl
      · rfl
    | call j t =>
      simp only [ownEvents]
      split <;> rfl
    | respond j t =>
      simp only [ownEvents]
      split <;> rfl
    | _ => rfl
  · rw [events_other ha hshutdown, received_other ha]
    rfl

/-! ## The way of a connection -/

/-- **How far a connection has come** on which the given bytes have arrived. -/
inductive Reached (codec : Codec) (bytes : Bytes) : List Event → Connection → Prop
  /-- its options have not been read -/
  | opening {conn : Connection} {buffer : Bytes} {source : Source}
      (hopening : conn.opening? = some (buffer, source, { behaviour := .faithful }))
      (hbytes : buffer ++ source.unread = bytes) (hending : source.ending = none) :
      Reached codec bytes [] conn
  /-- it is served, and reads on -/
  | serving {log : List Event} {c : Serving} {start : Bytes} (htraced : Traced codec start [] log c)
      (hbytes : Options.line codec ++ 0x0a :: (start ++ input log) = bytes)
      (hundisturbed : c.Undisturbed) : Reached codec bytes log (.serving c)

variable {codec : Codec} {bytes : Bytes} {log : List Event} {conn : Connection}

/-- Whether the bytes are those at the front of a line and some whole messages. -/
def Opens (codec : Codec) (bytes : Bytes) : Prop :=
  ∃ back ms whole, bytes ++ back = Options.line codec ++ 0x0a :: whole ∧
    Message.Splits codec whole ms []

section Opening

variable {buffer : Bytes} {source : Source}
  (hopening : conn.opening? = some (buffer, source, { behaviour := .faithful }))
  (hbytes : buffer ++ source.unread = bytes) (hending : source.ending = none)
  (hconn : s.connections[i]? = some conn)
include hopening hbytes hending hconn

/-- Bytes arrive before the options have been read. -/
theorem Reached.receive {piece : Bytes} (hstep : s.step (.receive i piece) = some s') :
    ∃ conn', s'.connections[i]? = some conn' ∧ Reached codec (bytes ++ piece) [] conn' := by
  obtain rfl := Option.some.inj hstep
  have hunread : (source.arrive piece).unread = source.unread ++ piece := by
    simp [Source.arrive, Source.unread, hending]
  have hending' : (source.arrive piece).ending = none := by
    simp [Source.arrive, hending]
  have hopening' : (conn.mapSource (·.arrive piece)).opening? =
      some (buffer, source.arrive piece, { behaviour := .faithful }) := by
    cases conn <;> simp [Connection.opening?] at hopening <;>
      obtain ⟨rfl, rfl, rfl⟩ := hopening <;> rfl
  refine ⟨conn.mapSource (·.arrive piece), ?_, .opening hopening' ?_ hending'⟩
  · rw [List.getElem?_modify_eq, hconn]
    rfl
  · rw [hunread, ← List.append_assoc, hbytes]

/-- A client that is taken from the listener is kept, or turned away. -/
theorem Reached.accept (hstep : s.accept i = some s')
    (hkept : s'.connections[i]? ≠ some .turnedAway) :
    ∃ conn', s'.connections[i]? = some conn' ∧ Reached codec bytes [] conn' := by
  simp only [Server.accept] at hstep
  split at hstep
  · rename_i source' sink hlistening harrived
    rw [hconn] at harrived
    obtain rfl := Option.some.inj harrived
    simp only [Connection.opening?, Option.some.injEq, Prod.mk.injEq] at hopening
    obtain ⟨rfl, rfl, rfl⟩ := hopening
    split at hstep
    · obtain rfl := Option.some.inj hstep
      exact absurd (connections_setConnection_self hconn _) hkept
    · obtain rfl := Option.some.inj hstep
      exact ⟨_, connections_setConnection_self hconn _, .opening rfl hbytes hending⟩
  · cases hstep

/-- The serving of a connection begins. -/
theorem Reached.serve (hstep : s.step (.serve i) = some s') :
    ∃ conn', s'.connections[i]? = some conn' ∧ Reached codec bytes [] conn' := by
  simp only [step] at hstep
  split at hstep
  · rename_i source' sink haccepted
    rw [hconn] at haccepted
    obtain rfl := Option.some.inj haccepted
    simp only [Connection.opening?, Option.some.injEq, Prod.mk.injEq] at hopening
    obtain ⟨rfl, rfl, rfl⟩ := hopening
    obtain rfl := Option.some.inj hstep
    exact ⟨_, connections_setConnection_self hconn _, .opening rfl hbytes hending⟩
  · cases hstep

/-- The options are read as far as they have arrived. They are those of the client. -/
theorem Reached.negotiate (hstep : s.negotiate i = some s') (hopens : Opens codec bytes) :
    ∃ conn', s'.connections[i]? = some conn' ∧ Reached codec bytes [] conn' := by
  simp only [Server.negotiate] at hstep
  split at hstep
  · rename_i buffer' deadline source' sink hnegotiating
    rw [hconn] at hnegotiating
    obtain rfl := Option.some.inj hnegotiating
    simp only [Connection.opening?, Option.some.injEq, Prod.mk.injEq] at hopening
    obtain ⟨rfl, rfl, rfl⟩ := hopening
    obtain ⟨back, ms, whole, hwhole, -⟩ := hopens
    rw [← hbytes] at hwhole
    have hreceives := Negotiation.receive_line hending hwhole
    generalize Negotiation.receive buffer' source' = outcome at hreceives hstep
    cases hreceives with
    | waits hsame hending' =>
      obtain rfl := Option.some.inj hstep
      exact ⟨_, connections_setConnection_self hconn _, .opening rfl (hsame.trans hbytes) hending'⟩
    | agreed hsame hending' =>
      rename_i rest source''
      obtain rfl := Option.some.inj hstep
      have htraced : Traced codec (rest ++ source''.unread) [] []
          { reader := .make codec rest source''
            writer := { codec, sink := { behaviour := .faithful } } } :=
        .init { behaviour := .faithful } SinkBehaviour.accepts_faithful
      refine ⟨_, connections_setConnection_self hconn _, .serving htraced ?_
        ⟨rfl, rfl, rfl, hending'⟩⟩
      rw [show input [] = [] from rfl, List.append_nil, hsame, hbytes]
  · cases hstep

/-- A step that opens a connection, on which nothing is noted. -/
theorem Reached.step_opening {a : Action} (ha : a.connection? = some i)
    (hstep : s.step a = some s') (hpeaceful : a.isPeaceful i) (hopens : Opens codec bytes)
    (hkept : s'.connections[i]? ≠ some .turnedAway) :
    ∃ conn', s'.connections[i]? = some conn' ∧ Reached codec (bytes ++ received i a) [] conn' := by
  have hserving : s.serving? i = none := by
    simp only [serving?, hconn]
    cases conn <;> first | rfl | cases hopening
  cases a with
  | receive j piece =>
    cases ha
    rw [received, if_pos rfl]
    exact Reached.receive hopening hbytes hending hconn hstep
  | hangUp j e | expire j =>
    cases ha
    simp [Action.isPeaceful] at hpeaceful
  | accept j =>
    cases ha
    simp only [received, List.append_nil]
    exact Reached.accept hopening hbytes hending hconn hstep hkept
  | serve j =>
    cases ha
    simp only [received, List.append_nil]
    exact Reached.serve hopening hbytes hending hconn hstep
  | negotiate j =>
    cases ha
    simp only [received, List.append_nil]
    exact Reached.negotiate hopening hbytes hending hconn hstep hopens
  | read j => cases ha; simp [step, read, hserving] at hstep
  | noticeFailure j => cases ha; simp [step, noticeFailure, hserving] at hstep
  | noticeShutdown j => cases ha; simp [step, noticeShutdown, hserving] at hstep
  | call j t => cases ha; simp [step, call, hserving] at hstep
  | wake j t => cases ha; simp [step, wake, hserving] at hstep
  | respond j t => cases ha; simp [step, respond, hserving] at hstep
  | close j => cases ha; simp [step, close, hserving] at hstep
  | _ => cases ha

end Opening

/-- **A move leaves the connection undisturbed**, if the messages that arrive are whole, the
responses go into frames, and neither a shutdown nor the end of the stream is noted. -/
theorem undisturbed_move {c c' : Serving} {registry : Registry} {ev : List Event} {start : Bytes}
    (htraced : Traced codec start [] log c) (h : c.Undisturbed) (hmove : Move registry c ev c')
    (hfront : ∃ t m rest, Message.next? codec (c.reader.bytes ++ t) = some (m, rest))
    (hfits : ∀ a ∈ answers (log ++ ev), Message.Fits codec a.2.message)
    (hsignalled : .signalled ∉ ev) (hended : ∀ e, .ended e ∉ ev) : c'.Undisturbed := by
  cases hmove with
  | still => exact h
  | arrives =>
    exact ⟨h.reading, h.writeFailed, h.signalled, (Reader.ending_arrive _ _).trans h.ending⟩
  | ends => exact absurd List.mem_cons_self (hended _)
  | waits _ hread =>
    obtain ⟨-, -, -, -, hending⟩ := Reader.readHeader_waits hread
    exact ⟨h.reading, h.writeFailed, h.signalled, hending.trans h.ending⟩
  | fails _ hread =>
    -- nothing is wrong with what has arrived
    rw [← htraced.hears.codec_eq] at hfront
    exact (Reader.not_failed_of_front hread h.ending hfront).elim
  | asks _ hread =>
    obtain ⟨_, -, -, -, hending⟩ := Reader.readHeader_got hread
    exact ⟨h.reading, h.writeFailed, h.signalled, hending.trans h.ending⟩
  | noticesFailure _ hfailed =>
    rw [h.writeFailed] at hfailed
    cases hfailed
  | noticesShutdown _ hs =>
    rw [h.signalled] at hs
    cases hs
  | signals => exact absurd List.mem_cons_self hsignalled
  | breaks _ hwrite =>
    rename_i t r e writer _
    refine absurd (hfits (t, r) ?_) (htraced.speaks.breaks (t := t) hwrite).2
    rw [answers_append]
    exact List.mem_append_right _ List.mem_cons_self
  | _ => exact ⟨h.reading, h.writeFailed, h.signalled, h.ending⟩

/-- What stands behind the messages taken can be completed to one more. -/
theorem exists_next?_of_opens {c : Serving} {start : Bytes} (htraced : Traced codec start [] log c)
    (hreading : c.reading = true)
    (hopens : Opens codec (Options.line codec ++ 0x0a :: (start ++ input log))) :
    ∃ t m rest, Message.next? codec (c.reader.bytes ++ t) = some (m, rest) := by
  obtain ⟨back, ms, whole, hwhole, hsplits⟩ := hopens
  rw [List.append_assoc] at hwhole
  obtain ⟨-, rfl⟩ := List.cons.inj (List.append_cancel_left hwhole)
  obtain ⟨more, -, hmore⟩ := (htraced.hears.reading hreading).behind hsplits
  exact hmore.exists_next?

/-- **Every step of the server** takes a connection further on its way, unless it turns the
connection away. -/
theorem Reached.step (h : Reached codec bytes log conn) (hconn : s.connections[i]? = some conn)
    {a : Action} (hstep : s.step a = some s') (hpeaceful : a.isPeaceful i)
    (hopens : Opens codec bytes)
    (hfits : ∀ r ∈ answers (log ++ s.events i a), Message.Fits codec r.2.message)
    (hkept : s'.connections[i]? ≠ some .turnedAway) :
    ∃ conn', s'.connections[i]? = some conn' ∧
      Reached codec (bytes ++ received i a) (log ++ s.events i a) conn' := by
  have hshutdown : a ≠ .shutdown := by
    rintro rfl
    cases hpeaceful
  by_cases ha : a.connection? = some i
  · cases h with
    | opening hopening hbytes hending =>
      have hserving : s.serving? i = none := by
        simp only [serving?, hconn]
        cases conn <;> first | rfl | cases hopening
      rw [events_of_not_served hserving]
      exact step_opening hopening hbytes hending hconn ha hstep hpeaceful hopens hkept
    | serving htraced hbytes hundisturbed =>
      rename_i c start
      have hc : s.serving? i = some c := serving?_eq_some.mpr hconn
      rcases step_serving hc hstep with ⟨c', hc', hmove⟩ | ⟨-, hstopped, -⟩
      · have hfront := exists_next?_of_opens htraced hundisturbed.reading (hbytes ▸ hopens)
        refine ⟨_, serving?_eq_some.mp hc', .serving (htraced.move hmove) ?_ ?_⟩
        · rw [← hbytes, input_append, input_events hc hundisturbed.ending hshutdown]
          simp
        · refine undisturbed_move htraced hundisturbed hmove hfront hfits
            (fun hs => hshutdown (eq_shutdown_of_signalled hs)) fun e he => ?_
          obtain rfl := eq_hangUp_of_ended he
          simp [Action.isPeaceful] at hpeaceful
      · rw [hundisturbed.reading] at hstopped
        cases hstopped
  · rw [events_other ha hshutdown, received_other ha, List.append_nil, List.append_nil]
    exact ⟨conn, connections_step_ne hstep ha hshutdown hconn, h⟩

/-! ## What a connection has read and answered -/

namespace Reached

variable (h : Reached codec bytes log conn)
include h

theorem isOver : conn.isOver = false := by
  cases h with
  | opening hopening => cases conn <;> first | rfl | cases hopening
  | serving => rfl

/-- What has been written is the responses. -/
theorem sink : ∃ sink, conn.sink? = some sink ∧ sink.taken = written codec log := by
  cases h with
  | opening hopening =>
    refine ⟨{ behaviour := .faithful }, ?_, rfl⟩
    cases conn <;> simp [Connection.opening?] at hopening <;> simp [Connection.sink?, hopening]
  | serving htraced => exact ⟨_, rfl, htraced.speaks.taken⟩

theorem works : ∃ tasks, Works codec log tasks := by
  cases h with
  | opening => exact ⟨[], rfl, by simp, fun _ _ => ⟨rfl, rfl⟩⟩
  | serving htraced => exact ⟨_, htraced.works⟩

/-- The requests are the first of the messages that are sent. -/
theorem questions_prefix {back whole : Bytes} {ms : List (Header × Bytes)}
    (hwhole : bytes ++ back = Options.line codec ++ 0x0a :: whole)
    (hsplits : Message.Splits codec whole ms []) : questions log <+: ms := by
  cases h with
  | opening => exact List.nil_prefix
  | serving htraced hbytes hundisturbed =>
    rw [← hbytes, List.append_assoc] at hwhole
    obtain ⟨-, rfl⟩ := List.cons.inj (List.append_cancel_left hwhole)
    obtain ⟨more, rfl, -⟩ := (htraced.hears.reading hundisturbed.reading).behind hsplits
    exact List.prefix_append _ _

/-- A request is prepared when it is read. -/
theorem call_of_asked (hconn : s.connections[i]? = some conn) {a : Action} {q : Request × Bytes}
    (hq : q ∈ requests (s.events i a)) :
    q.1.call = s.registry.prepare codec q.1.header.method q.2 := by
  simp only [requests, List.mem_filterMap] at hq
  obtain ⟨e, he, hq⟩ := hq
  cases e with
  | asked request body =>
    obtain rfl := Option.some.inj hq
    rcases mem_events he with ⟨-, hsignalled⟩ | ⟨-, c, hc, hown⟩
    · cases hsignalled
    · cases h with
      | opening hopening =>
        rw [serving?_eq_some.mp hc] at hconn
        obtain rfl := Option.some.inj hconn
        cases hopening
      | serving htraced =>
        rw [serving?_eq_some.mp hc] at hconn
        obtain rfl := Connection.serving.inj (Option.some.inj hconn)
        have hcodec : ∀ {hd reader}, c.reader.readHeader = (.got hd, reader) →
            reader.codec = codec := by
          intro hd reader hread
          obtain ⟨_, -, -, hcodec, -⟩ := Reader.readHeader_got hread
          exact hcodec.trans htraced.hears.codec_eq
        unfold ownEvents at hown
        split at hown
        · split at hown <;> simp at hown
        · simp at hown
        · split at hown
          · rename_i hd reader hread
            split at hown
            · obtain ⟨rfl, rfl⟩ := Event.asked.inj (List.mem_singleton.mp hown)
              rw [hcodec hread]
            · cases hown
          · cases hown
        · split at hown <;> simp at hown
        · split at hown <;> simp at hown
        · cases hown
  | _ => cases hq

end Reached

end Server

end WireCall
