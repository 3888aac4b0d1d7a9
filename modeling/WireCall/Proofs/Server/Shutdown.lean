import WireCall.Proofs.Negotiation
import WireCall.Proofs.Server.Answering

/-!
# Who hears of a shutdown

A shutdown reaches those who listen for it at that moment: the accepting loop after it has
subscribed, and a connection after its options have been read. Nothing is remembered for those who
begin to listen later. So a connection under service that is still reading has a signal ready if and
only if the server has been shut down after the step in which its options were read, and the
accepting loop if and only if that was after its last subscription (`Server.shutdown_heard_iff`).

A shutdown that comes earlier is missed: the connection goes on reading requests, and the loop
accepts (`Server.shutdown_missed`).
-/

namespace WireCall

/-- The signal stays ready as long as the connection reads. -/
theorem Serving.Move.signalled {registry : Registry} {c c' : Serving} {ev : List Serving.Event}
    (hmove : Serving.Move registry c ev c') (hreading : c'.reading = true) :
    c.reading = true ∧ (c'.signalled = true ↔ c.signalled = true ∨ .signalled ∈ ev) := by
  cases hmove with
  | fails | noticesFailure | noticesShutdown => cases hreading
  | signals => exact ⟨hreading, iff_of_true rfl (.inr (List.mem_singleton_self _))⟩
  | _ => exact ⟨hreading, by simp⟩

/-- What reaches a stream brings no connection under service. -/
theorem Connection.serving_of_mapSource {conn : Connection} {f : Source → Source} {c : Serving}
    (h : conn.mapSource f = .serving c) : ∃ c', conn = .serving c' := by
  cases conn with
  | serving c' => exact ⟨c', rfl⟩
  | _ => cases h

theorem Connection.serving_of_signal {conn : Connection} {c : Serving}
    (h : conn.signal = .serving c) : ∃ c', conn = .serving c' := by
  cases conn with
  | serving c' => exact ⟨c', rfl⟩
  | _ => cases h

namespace Server

open Serving (Move)

variable {s s₀ s' : Server} {i : Nat} {c : Serving} {a : Action} {actions : List Action}

/-! ## Connections -/

/-- **A connection comes under service only when its options are read**, and has no signal then. -/
theorem eq_negotiate_of_serving (hnone : s.serving? i = none) (hstep : s.step a = some s')
    (hc : s'.serving? i = some c) : a = .negotiate i ∧ c.signalled = false := by
  have hnot : ∀ c, s.connections[i]? ≠ some (.serving c) := by
    intro c hconn
    rw [serving?_eq_some.mpr hconn] at hnone
    cases hnone
  have hconn := serving?_eq_some.mp hc
  cases changes_of_step hstep with
  | still hconnections => exact absurd (hconnections ▸ hconn) (hnot c)
  | comes _ hconnections | handsOver _ hconnections =>
    rw [hconnections] at hconn
    rcases getElem?_of_concat hconn with h | ⟨-, h⟩
    · exact absurd h (hnot c)
    · cases h
  | reaches f _ hconnections =>
    rw [hconnections, List.getElem?_modify, Option.map_eq_map, Option.map_eq_some_iff] at hconn
    obtain ⟨conn, h, hmapped⟩ := hconn
    split at hmapped
    · obtain ⟨c', rfl⟩ := Connection.serving_of_mapSource hmapped
      exact absurd h (hnot c')
    · exact absurd (hmapped ▸ h) (hnot c)
  | goesOn _ hbefore _ hconnections _ hadmits =>
    rw [hconnections] at hconn
    rcases getElem?_of_set hconn with ⟨rfl, h⟩ | ⟨-, h⟩
    · rcases hadmits c h.symm with ⟨c₀, rfl⟩ | hfresh
      · exact absurd hbefore (hnot c₀)
      · exact hfresh
    · exact absurd h (hnot c)
  | signals _ hconnections =>
    rw [hconnections, List.getElem?_map, Option.map_eq_some_iff] at hconn
    obtain ⟨conn, h, hsignalled⟩ := hconn
    obtain ⟨c', rfl⟩ := Connection.serving_of_signal hsignalled
    exact absurd h (hnot c')

/-- **The run brings a connection under service**, and goes on with the given actions. -/
def ServedFrom (s₀ : Server) (i : Nat) (actions after : List Action) : Prop :=
  ∃ before m m', actions = before ++ .negotiate i :: after ∧ s₀.run before = some m ∧
    m.serving? i = none ∧ m.step (.negotiate i) = some m' ∧ (m'.serving? i).isSome

/-- **A connection that reads has a signal ready** just if the server has been shut down since the
connection came under service. -/
theorem signalled_iff (hnone : s₀.serving? i = none) (hrun : s₀.run actions = some s)
    (hc : s.serving? i = some c) (hreading : c.reading = true) :
    ∃ after, ServedFrom s₀ i actions after ∧ (c.signalled = true ↔ .shutdown ∈ after) := by
  refine Run.induct (P := fun as s => ∀ c, s.serving? i = some c → c.reading = true →
    ∃ after, ServedFrom s₀ i as after ∧ (c.signalled = true ↔ .shutdown ∈ after)) ?_ ?_
    actions s hrun c hc hreading
  · intro c hc
    rw [hnone] at hc
    cases hc
  · intro as m a s' hm ih hstep c' hc' hreading
    cases hc : m.serving? i with
    | none =>
      obtain ⟨rfl, hfresh⟩ := eq_negotiate_of_serving hc hstep hc'
      refine ⟨[], ⟨as, m, s', rfl, hm, hc, hstep, ?_⟩, ?_⟩
      · rw [hc']
        rfl
      · rw [hfresh]
        exact iff_of_false nofun List.not_mem_nil
    | some c =>
      rcases step_serving hc hstep with ⟨c₁, hc₁, hmove⟩ | ⟨hserved, -⟩
      · obtain rfl := Option.some.inj (hc₁.symm.trans hc')
        obtain ⟨hreading₀, hsignalled⟩ := hmove.signalled hreading
        obtain ⟨after, ⟨before, d, d', rfl, hbefore⟩, hshutdown⟩ := ih c hc hreading₀
        refine ⟨after ++ [a], ⟨before, d, d', by simp, hbefore⟩, ?_⟩
        have hheard : .signalled ∈ m.events i a ↔ a = .shutdown := by
          constructor
          · exact eq_shutdown_of_signalled
          · rintro rfl
            simp [events, hc]
        rw [hsignalled, hshutdown, hheard, List.mem_append, List.mem_singleton,
          eq_comm (a := a)]
      · rw [serving?_eq_some, hserved] at hc'
        cases hc'

/-! ## The accepting loop -/

/-- **How a step changes the accepting loop.** -/
inductive Listens (s s' : Server) : Action → Prop
  | still {a : Action} (hshutdown : a ≠ .shutdown) (hsubscribe : a ≠ .subscribe)
      (h : s'.listening = s.listening) : Listens s s' a
  | enters (h : s'.listening = .entered) : Listens s s' .listen
  | subscribes (h : s'.listening = .accepting false) : Listens s s' .subscribe
  | stops (h : s'.listening = .idle) : Listens s s' .stopListening
  /-- only a loop that has subscribed hears of a shutdown -/
  | hears {b : Bool} (hb : s.listening = .accepting b) (h : s'.listening = .accepting true) :
      Listens s s' .shutdown
  | misses (hb : ∀ b, s.listening ≠ .accepting b) (h : s'.listening = s.listening) :
      Listens s s' .shutdown

theorem listens_of_step (hstep : s.step a = some s') : Listens s s' a := by
  cases a with
  | listen =>
    simp only [step] at hstep
    split at hstep
    · obtain rfl := Option.some.inj hstep
      exact .enters rfl
    · cases hstep
  | subscribe =>
    simp only [step] at hstep
    split at hstep
    · obtain rfl := Option.some.inj hstep
      exact .subscribes rfl
    · cases hstep
  | stopListening =>
    simp only [step] at hstep
    split at hstep
    · obtain rfl := Option.some.inj hstep
      exact .stops rfl
    · cases hstep
  | shutdown =>
    obtain rfl := Option.some.inj hstep
    cases hlistening : s.listening with
    | accepting b => exact .hears hlistening rfl
    | idle | entered => exact .misses (by simp [hlistening]) hlistening.symm
  | _ =>
    have hlistening := (spares_of_step hstep).listening.resolve_right (by simp)
    exact .still (by simp) (by simp) hlistening

/-- **An accepting loop has a signal ready** just if the server has been shut down since the loop
subscribed. -/
theorem accepting_iff (hidle : s₀.listening = .idle) (hrun : s₀.run actions = some s) {b : Bool}
    (hb : s.listening = .accepting b) :
    ∃ before after, actions = before ++ .subscribe :: after ∧ .subscribe ∉ after ∧
      (b = true ↔ .shutdown ∈ after) := by
  refine Run.induct (P := fun as s => ∀ b, s.listening = .accepting b →
    ∃ before after, as = before ++ .subscribe :: after ∧ .subscribe ∉ after ∧
      (b = true ↔ .shutdown ∈ after)) ?_ ?_ actions s hrun b hb
  · intro b hb
    rw [hidle] at hb
    cases hb
  · intro as m a s' hm ih hstep b hb
    have hlistens := listens_of_step hstep
    cases hlistens with
    | still hshutdown hsubscribe h =>
      obtain ⟨before, after, rfl, hlast, hheard⟩ := ih b (h.symm.trans hb)
      refine ⟨before, after ++ [a], by simp, ?_, ?_⟩
      · simp [hlast, Ne.symm hsubscribe]
      · simp [hheard, Ne.symm hshutdown]
    | enters h | stops h =>
      rw [hb] at h
      cases h
    | subscribes h =>
      obtain rfl := Listening.accepting.inj (hb.symm.trans h)
      exact ⟨as, [], rfl, List.not_mem_nil, iff_of_false nofun List.not_mem_nil⟩
    | @hears b₀ hb₀ h =>
      obtain rfl := Listening.accepting.inj (hb.symm.trans h)
      obtain ⟨before, after, rfl, hlast, -⟩ := ih b₀ hb₀
      refine ⟨before, after ++ [.shutdown], by simp, by simp [hlast], ?_⟩
      exact iff_of_true rfl (List.mem_append_right _ (List.mem_singleton_self _))
    | misses hnot h => exact absurd (h.symm.trans hb) (hnot b)

/-! ## The main statement -/

/-- **Who has a signal ready**, after any run of a server, whatever its settings and services:

- a connection that is under service and still reads can stop for a shutdown just if the server has
  been shut down since the options of the connection were read;
- the accepting loop can stop for a shutdown just if the server has been shut down since the loop
  subscribed. -/
theorem shutdown_heard_iff (settings : ServerSettings) (registry : Registry)
    (hrun : run { settings, registry } actions = some s) :
    (∀ i c, s.serving? i = some c → c.reading = true →
      ∃ after, ServedFrom { settings, registry } i actions after ∧
        ((s.step (.noticeShutdown i)).isSome ↔ .shutdown ∈ after)) ∧
    ∀ b, s.listening = .accepting b →
      ∃ before after, actions = before ++ .subscribe :: after ∧ .subscribe ∉ after ∧
        ((s.step .stopListening).isSome ↔ .shutdown ∈ after) := by
  refine ⟨?_, ?_⟩
  · intro i c hc hreading
    obtain ⟨after, hserved, hheard⟩ := signalled_iff rfl hrun hc hreading
    refine ⟨after, hserved, ?_⟩
    simp [step, noticeShutdown, hc, hreading, ← hheard]
  · intro b hb
    obtain ⟨before, after, hsplit, hlast, hheard⟩ := accepting_iff rfl hrun hb
    refine ⟨before, after, hsplit, hlast, ?_⟩
    simp [step, hb, ← hheard]

/-- A connection is handed over, and its client asks for the compact codec. -/
def opening : List Action :=
  [.handOver { behaviour := .faithful }, .receive 0 (Options.line .compact ++ [0x0a])]

theorem shutdown_heard_iff_in_time :
    ∃ s after, run { registry := offering Demo.service } (opening ++ [.negotiate 0, .shutdown]) =
        some s ∧
      ServedFrom { registry := offering Demo.service } 0 (opening ++ [.negotiate 0, .shutdown])
        after ∧
      (s.step (.noticeShutdown 0)).isSome ∧ .shutdown ∈ after := by
  have hends : (run { registry := offering Demo.service }
      (opening ++ [.negotiate 0, .shutdown])).any (fun s =>
        (s.serving? 0).any (·.reading) && (s.step (.noticeShutdown 0)).isSome) = true := by
    decide +kernel
  obtain ⟨s, hrun, hs⟩ := (Option.any_eq_true _ _).mp hends
  rw [Bool.and_eq_true] at hs
  obtain ⟨hserving, hready⟩ := hs
  obtain ⟨c, hc, hreading⟩ := (Option.any_eq_true _ _).mp hserving
  obtain ⟨after, hserved, hheard⟩ := (shutdown_heard_iff {} _ hrun).1 0 c hc hreading
  exact ⟨s, after, hrun, hserved, hready, hheard.mp hready⟩

/-- **A shutdown may be missed.** A connection whose options are read after the shutdown has no
signal ready, and the request that it reads is counted; a loop that is entered after the shutdown
has none either, and accepts. -/
theorem shutdown_missed :
    (∃ s c s', run { registry := offering Demo.service }
        (opening ++ [.shutdown, .negotiate 0, .receive 0 sumRequest]) = some s ∧
      s.serving? 0 = some c ∧ c.signalled = false ∧ s.step (.noticeShutdown 0) = none ∧
      s.step (.read 0) = some s' ∧ s'.stats.requestsTotal = 1) ∧
    ∃ s s', run {} [.shutdown, .listen, .subscribe, .arrive { behaviour := .faithful }] = some s ∧
      s.step .stopListening = none ∧ s.step (.accept 0) = some s' ∧
      s'.connections = [.accepted {} { behaviour := .faithful }] := by
  refine ⟨?_, _, _, rfl, rfl, rfl, rfl⟩
  have hends : (run { registry := offering Demo.service }
      (opening ++ [.shutdown, .negotiate 0, .receive 0 sumRequest])).any (fun s =>
        (s.serving? 0).any (fun c => !c.signalled) && (s.step (.noticeShutdown 0)).isNone &&
        (s.step (.read 0)).any fun s' => s'.stats.requestsTotal = 1) = true := by
    decide +kernel
  obtain ⟨s, hrun, hs⟩ := (Option.any_eq_true _ _).mp hends
  simp only [Bool.and_eq_true] at hs
  obtain ⟨⟨hserving, hdeaf⟩, hreads⟩ := hs
  obtain ⟨c, hc, hsignalled⟩ := (Option.any_eq_true _ _).mp hserving
  obtain ⟨s', hread, hcounted⟩ := (Option.any_eq_true _ _).mp hreads
  exact ⟨s, c, s', hrun, hc, by simpa using hsignalled, Option.isNone_iff_eq_none.mp hdeaf, hread,
    of_decide_eq_true hcounted⟩

end Server

end WireCall
