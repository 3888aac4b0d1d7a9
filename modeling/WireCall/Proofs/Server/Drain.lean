import WireCall.Proofs.Server.Output

/-!
# A connection is drained before it is closed

However the reading of a connection has ended, the requests that were read before are all answered
before its stream is shut down. The server can answer them and close the connection by itself then
(`Server.exists_served`). When it has done so, nothing has happened to the connection since it was
under service but the close of its writer (`Server.leftBy_of_run`).

So on a stream without a fault, a connection that has been served has written one complete frame for
each of its requests, and its stream was shut down once, behind the last of them
(`Server.drained_before_close`).
-/

namespace WireCall

/-- No move lets a reading that has ended begin again. -/
theorem Serving.Move.stopped {registry : Registry} {c c' : Serving} {ev : List Serving.Event}
    (hmove : Serving.Move registry c ev c') (hstopped : c.reading = false) :
    c'.reading = false := by
  cases hmove with
  | fails => rfl
  | noticesFailure => rfl
  | noticesShutdown => rfl
  | _ => exact hstopped

namespace Server

open Serving

variable {s s₀ s' : Server} {i : Nat} {c : Serving} {codec : Codec} {sink : Sink}
  {actions : List Action}

/-- How often the stream of a connection has been shut down. -/
def shutdowns (s : Server) (i : Nat) : Nat :=
  match s.connections[i]?.bind Connection.sink? with
  | some sink => sink.shutdowns
  | none => 0

/-- Whether the serving of a connection has come to its end without an error. -/
def HasServed (s : Server) (i : Nat) : Prop :=
  s.connections[i]?.bind Connection.result? = some (.ok ())

instance decidableHasServed (s : Server) (i : Nat) : Decidable (s.HasServed i) :=
  match h : s.connections[i]?.bind Connection.result? with
  | some (.ok ()) => isTrue h
  | some (.error e) => isFalse fun h' => by cases h.symm.trans h'
  | none => isFalse fun h' => by cases h.symm.trans h'

theorem hasServed_iff : s.HasServed i ↔ ∃ c, s.connections[i]? = some (.served c) := by
  constructor
  · intro h
    obtain ⟨conn, hconn, hresult⟩ := Option.bind_eq_some_iff.mp h
    cases conn with
    | served c => exact ⟨c, hconn⟩
    | refused e sink => cases Option.some.inj hresult
    | _ => cases hresult
  · rintro ⟨c, hc⟩
    rw [HasServed, hc]
    rfl

/-! ## Closing -/

/-- A connection whose reading has ended. -/
def Stopped : Server → Nat → Prop := Lasts (fun c => c.reading = false) fun _ => True

/-- Reading that has ended does not begin again. -/
theorem Stopped.run (h : Stopped s i) (hrun : s.run actions = some s') : Stopped s' i := by
  refine Run.keeps (P := fun s => Stopped s i) ?_ h hrun
  intro s a s' hstopped hstep
  exact Lasts.step hstopped hstep (fun _ _ _ h hmove => hmove.stopped h)
    (fun _ _ _ _ _ _ => trivial) fun _ _ _ => trivial

/-- A connection with nothing to read and nothing to answer can be closed. -/
theorem step_close (hc : s.serving? i = some c) (hstopped : c.reading = false)
    (hfinished : c.tasks.all Task.isFinished) :
    ∃ s', s.step (.close i) = some s' ∧ s'.HasServed i := by
  refine ⟨(s.setConnection i (.served { c with writer := c.writer.close.2 })).countLeft, ?_, ?_⟩
  · simp [step, close, hc, hstopped, hfinished]
  · exact hasServed_iff.mpr ⟨_, connections_setConnection_self (serving?_eq_some.mp hc) _⟩

/-- **When the reading of a connection has ended, it can be served**, by steps of the server
alone. -/
theorem exists_served (hc : s.serving? i = some c) (hstopped : c.reading = false) :
    ∃ more s', s.run more = some s' ∧ Proceeds more ∧ s'.HasServed i := by
  obtain ⟨more, m, hmore, hproceeds, c', hc', hrest⟩ := exists_rests hc
  have hstopped' : Stopped m i := Stopped.run (.serving hc hstopped) hmore
  rcases hc' with hserving | hserved
  · cases hstopped' with
    | serving hc'' hstopped'' =>
      obtain rfl := Option.some.inj ((serving?_eq_some.mpr hserving).symm.trans hc'')
      obtain ⟨s', hclose, hserved⟩ := step_close hc'' hstopped'' hrest.finished
      refine ⟨more ++ [.close i], s', Run.concat_eq_some.mpr ⟨m, hmore, hclose⟩, ?_, hserved⟩
      intro a ha
      rcases List.mem_append.mp ha with ha | ha
      · exact hproceeds a ha
      · obtain rfl := List.mem_singleton.mp ha
        exact ⟨rfl, nofun⟩
    | served hserved => cases hserving.symm.trans hserved
  · exact ⟨more, m, hmore, hproceeds, hasServed_iff.mpr ⟨c', hserved⟩⟩

/-- Whether a connection has been under service in a run, and is left so by the close of its
writer. -/
def LeftBy (s₀ : Server) (i : Nat) (actions : List Action) (c' : Serving) : Prop :=
  ∃ before after m c, actions = before ++ after ∧ s₀.run before = some m ∧
    m.serving? i = some c ∧ c' = { c with writer := c.writer.close.2 }

/-- **Before a connection had been served it was under service**, and the close of its writer is
all that has happened to it since. -/
theorem leftBy_of_run (hc : s₀.serving? i = some c) (hrun : s₀.run actions = some s) {c' : Serving}
    (hc' : s.connections[i]? = some (.served c')) : LeftBy s₀ i actions c' := by
  have hlasts : Lasts (fun _ => True) (LeftBy s₀ i actions) s i := by
    refine Run.induct (P := fun as s => Lasts (fun _ => True) (LeftBy s₀ i as) s i)
      (.serving hc trivial) ?_ actions s hrun
    intro as m a s' hm hlasts hstep
    refine Lasts.step hlasts hstep (fun _ _ _ _ _ => trivial) ?_ ?_
    · intro c' hc' _ _ _ _
      exact ⟨as, [a], m, c', rfl, hm, hc', rfl⟩
    · rintro c'' - ⟨before, after, m', c', rfl, hbefore, hc', hclosed⟩
      exact ⟨before, after ++ [a], m', c', List.append_assoc _ _ _, hbefore, hc', hclosed⟩
  cases hlasts with
  | serving hserving => cases (serving?_eq_some.mp hserving).symm.trans hc'
  | served hconn hleft =>
    obtain rfl := Connection.served.inj (Option.some.inj (hconn.symm.trans hc'))
    exact hleft

/-- A connection that has been served has answered all its requests. -/
theorem Delivers.perm_requests {log : List Event} {past : List IoError}
    (h : Delivers codec sink log past s i) (hserved : s.HasServed i) :
    ((answers log).map Prod.fst).Perm (List.range (requests log).length) := by
  obtain ⟨c', hc'⟩ := hasServed_iff.mp hserved
  cases h with
  | serving hserving => cases (serving?_eq_some.mp hserving).symm.trans hc'
  | served _ h =>
    obtain ⟨c, -, hfinished, -, hworks⟩ := h
    exact hworks.length ▸ hworks.perm_range hfinished

/-- **The stream is shut down once, behind all that has been written**, if it has had no fault. -/
theorem shutdown_last {rest : Bytes} {source : Source}
    (hc : s₀.serving? i = some { reader := .make codec rest source, writer := { codec, sink } })
    (hrun : s₀.run actions = some s) (hfaults : s₀.faults i actions = [])
    (hserved : s.HasServed i) :
    s.shutdowns i = sink.shutdowns + 1 ∧
      ∃ before after m, actions = before ++ after ∧ s₀.run before = some m ∧
        m.output i = s.output i ∧ m.shutdowns i = sink.shutdowns := by
  obtain ⟨c', hc'⟩ := hasServed_iff.mp hserved
  obtain ⟨before, after, m, c, rfl, hbefore, hm, rfl⟩ := leftBy_of_run hc hrun hc'
  -- up to the close there has been no fault either
  have hfaults' : s₀.faults i before = [] := by
    rw [faults, Run.log_append hbefore] at hfaults
    exact (List.append_eq_nil_iff.mp hfaults).1
  have hdelivers := delivers_of_run hc hbefore
  rw [hfaults'] at hdelivers
  cases hdelivers with
  | served hserved' => cases (serving?_eq_some.mp hm).symm.trans hserved'
  | serving hm' h =>
    obtain rfl := Option.some.inj (hm.symm.trans hm')
    replace hm := serving?_eq_some.mp hm
    cases h.1 with
    | broken hpast => exact absurd rfl hpast
    | intact _ hopen _ hshutdowns =>
      refine ⟨?_, before, after, m, rfl, hbefore, ?_, ?_⟩
      · rw [shutdowns, hc']
        exact (Writer.shutdowns_close hopen).trans (congrArg (· + 1) hshutdowns)
      · rw [output, output, hm, hc']
        exact (taken_close _).symm
      · rw [shutdowns, hm]
        exact hshutdowns

/-! ## The main statement -/

/-- **A connection is drained before it is closed.** On a connection that has just been negotiated,
if its stream has had no fault and the responses go into frames, whatever else happens: when the
reading has ended, for whatever reason, the server can serve it to its end; and when it has been
served, it has written one complete frame for each request that was read, which responds to it, and
its stream was shut down once, at a moment when all of that had been written. -/
theorem drained_before_close {rest : Bytes} {source : Source}
    (hc : s₀.serving? i = some { reader := .make codec rest source, writer := { codec, sink } })
    (hrun : s₀.run actions = some s) (hfaults : s₀.faults i actions = [])
    (hfit : ∀ a ∈ answers (s₀.history i actions), Message.Fits codec a.2.message) :
    (∀ c, s.serving? i = some c → c.reading = false →
      ∃ more s', s.run more = some s' ∧ Proceeds more ∧ s'.HasServed i) ∧
    (s.HasServed i →
      (∃ given, s.output i = sink.taken ++ frames codec given ∧
        (given.map Prod.fst).Perm (List.range (requests (s₀.history i actions)).length) ∧
        ∀ a ∈ given, Message.Fits codec a.2.message ∧
          Responds codec (s₀.history i actions) a) ∧
      s.shutdowns i = sink.shutdowns + 1 ∧
      ∃ before after m, actions = before ++ after ∧ s₀.run before = some m ∧
        m.output i = s.output i ∧ m.shutdowns i = sink.shutdowns) := by
  refine ⟨fun c => exists_served, fun hserved => ⟨?_, shutdown_last hc hrun hfaults hserved⟩⟩
  -- the responses written are those to all requests
  have hdelivers := delivers_of_run hc hrun
  obtain ⟨out, hout, -, hall⟩ := hdelivers.output
  obtain ⟨tasks, hworks⟩ := hdelivers.works
  refine ⟨answers (s₀.history i actions), hall hfaults ▸ hout, hdelivers.perm_requests hserved, ?_⟩
  intro a ha
  exact ⟨hfit a ha, hworks.responds ha⟩

/-- A request for the sum of five and six after five milliseconds, one for the sum of one and two,
and the beginning of a third one. -/
def sleepAndSum : Bytes :=
  Message.bytes .compact (⟨"Foo.Sleep", 1, ""⟩, [10, 12]) ++ sumRequest ++ sumRequest.take 20

/-- The second request is answered first; the first one is answered when the stream has ended inside
the third one. -/
def draining : List Action :=
  [.read 0, .call 0 0, .read 0, .call 0 1, .respond 0 1, .hangUp 0 .finished, .read 0, .pass 5,
    .wake 0 0, .respond 0 0, .close 0]

theorem drained_before_close_sleeping :
    ∃ s given, (having (offering Demo.service) sleepAndSum).run draining = some s ∧
      s.HasServed 0 ∧ s.output 0 = frames .compact given ∧
      (given.map Prod.fst).Perm [0, 1] ∧ s.shutdowns 0 = 1 := by
  have hserved : ((having (offering Demo.service) sleepAndSum).run draining).any
      (fun s => s.HasServed 0) = true := by
    decide +kernel
  have hfaults : (having (offering Demo.service) sleepAndSum).faults 0 draining = [] := by
    decide +kernel
  have hfit : ∀ a ∈ answers ((having (offering Demo.service) sleepAndSum).history 0 draining),
      Message.Fits .compact a.2.message := by
    decide +kernel
  have hrequests :
      (requests ((having (offering Demo.service) sleepAndSum).history 0 draining)).length = 2 := by
    decide +kernel
  obtain ⟨s, hrun, hs⟩ := (Option.any_eq_true _ _).mp hserved
  replace hs : s.HasServed 0 := of_decide_eq_true hs
  obtain ⟨-, hdrained⟩ := drained_before_close (i := 0) rfl hrun hfaults hfit
  obtain ⟨⟨given, hgiven, hperm, -⟩, hshutdowns, -⟩ := hdrained hs
  rw [hrequests] at hperm
  exact ⟨s, given, hrun, hs, hgiven, hperm, hshutdowns⟩

end Server

end WireCall
