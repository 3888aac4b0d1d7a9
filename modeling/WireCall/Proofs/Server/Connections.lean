import WireCall.Proofs.Run
import WireCall.Server

/-!
# How a step of the server changes its connections

A step lets the connections alone, or adds one, or changes the one that it is about, or signals all
of them (`Server.Alters`). So a connection changes only in a step that is about it or in a shutdown,
none of them is forgotten, and one that is over stays as it is.

What a step counts of the connections depends on how the one that it is about passes from one stage
of its serving to another (`Server.Passes`, `Server.changes_of_step`). The settings stay, and in all
but a few steps so do the accepting loop and the registry (`Server.Spares`).
-/

namespace WireCall

/-- Where the serving of a connection stands. -/
inductive Stage where
  /-- nobody has asked for it, or there were too many connections -/
  | outside
  /-- the listener has handed the connection over -/
  | accepted
  | underWay
  | ended
  deriving DecidableEq

/-- Where the serving of the connection stands. -/
def Connection.stage : Connection → Stage
  | .arrived _ _ | .turnedAway => .outside
  | .accepted _ _ => .accepted
  | .negotiating _ _ _ _ | .serving _ => .underWay
  | .refused _ _ | .served _ => .ended

namespace Server

/-- The connection that an action is about. -/
def Action.connection? : Action → Option Nat
  | .receive i _ | .hangUp i _ | .accept i | .serve i | .negotiate i | .expire i | .read i
  | .noticeFailure i | .noticeShutdown i | .call i _ | .wake i _ | .respond i _ | .close i => some i
  | _ => none

variable {s s' : Server} {i j : Nat} {c : Serving} {a : Action}

theorem serving?_eq_some : s.serving? i = some c ↔ s.connections[i]? = some (.serving c) := by
  simp only [serving?]
  constructor
  · intro h
    split at h
    · rename_i hc
      rw [hc, Option.some.inj h]
    · cases h
  · intro h
    rw [h]

theorem connections_setConnection_self {conn : Connection} (h : s.connections[i]? = some conn)
    (conn' : Connection) : (s.setConnection i conn').connections[i]? = some conn' :=
  List.getElem?_set_self (List.getElem?_eq_some_iff.mp h).1

theorem connections_conclude (s : Server) (i : Nat) (c : Serving) (t : Nat) (h : Header)
    (result : Except String Bytes) :
    (s.conclude i c t h result).connections = s.connections.set i (.serving
      { c with tasks := c.tasks.set t (.responding (.make c.writer.codec h result)) }) := by
  cases result <;> rfl

theorem stats_conclude (s : Server) (i : Nat) (c : Serving) (t : Nat) (h : Header)
    (result : Except String Bytes) :
    (s.conclude i c t h result).stats.connectionsTotal = s.stats.connectionsTotal ∧
      (s.conclude i c t h result).stats.connectionsActive = s.stats.connectionsActive := by
  cases result <;> exact ⟨rfl, rfl⟩

/-- **What a step leaves alone**: the settings; the accepting loop, but in its own steps and in a
shutdown; and the registry, but in a call that is made. -/
structure Spares (s s' : Server) (a : Action) : Prop where
  settings : s'.settings = s.settings
  listening : s'.listening = s.listening ∨ a ∈ [.listen, .subscribe, .stopListening, .shutdown]
  registry : s'.registry = s.registry ∨
    ∃ i t p, a = .call i t ∧ s'.registry = (s.registry.invoke p).1

theorem Spares.conclude (hspares : Spares s s' a) (i : Nat) (c : Serving) (t : Nat) (h : Header)
    (result : Except String Bytes) : Spares s (s'.conclude i c t h result) a := by
  cases result <;> exact ⟨hspares.settings, hspares.listening, hspares.registry⟩

theorem spares_of_step (hstep : s.step a = some s') : Spares s s' a := by
  cases a with
  | arrive | handOver | receive | hangUp | pass =>
    obtain rfl := Option.some.inj hstep
    exact ⟨rfl, .inl rfl, .inl rfl⟩
  | shutdown =>
    obtain rfl := Option.some.inj hstep
    exact ⟨rfl, .inr (by simp), .inl rfl⟩
  | listen | subscribe | stopListening =>
    simp only [step] at hstep
    split at hstep
    · obtain rfl := Option.some.inj hstep
      exact ⟨rfl, .inr (by simp), .inl rfl⟩
    · cases hstep
  | call i t =>
    simp only [step, call] at hstep
    repeat' split at hstep
    all_goals cases hstep
    · exact .conclude ⟨rfl, .inl rfl, .inl rfl⟩ ..
    · refine .conclude ?_ i _ t _ _
      exact ⟨rfl, .inl rfl, .inr ⟨i, t, _, rfl, rfl⟩⟩
    · exact ⟨rfl, .inl rfl, .inr ⟨i, t, _, rfl, rfl⟩⟩
  | wake i t =>
    simp only [step, wake] at hstep
    repeat' split at hstep
    all_goals cases hstep
    exact .conclude ⟨rfl, .inl rfl, .inl rfl⟩ ..
  | _ =>
    simp only [step, accept, negotiate, expire, read, noticeFailure, noticeShutdown, respond,
      close] at hstep
    repeat' split at hstep
    all_goals cases hstep
    all_goals exact ⟨rfl, .inl rfl, .inl rfl⟩

/-! ## What a step can do -/

/-- **How a step counts** the connection that it is about, as its serving passes from one stage to
another. -/
inductive Passes (s s' : Server) : Action → Stage → Stage → Prop
  | within {a : Action} {g : Stage} (htotal : s'.stats.connectionsTotal = s.stats.connectionsTotal)
      (hactive : s'.stats.connectionsActive = s.stats.connectionsActive) : Passes s s' a g g
  /-- it is accepted, as there is room for it -/
  | accepts {i : Nat} (hroom : s.stats.connectionsActive.toNat < s.settings.maxConnections)
      (hstats : s'.stats = s.stats) : Passes s s' (.accept i) .outside .accepted
  | begins {i : Nat} (hstats : s'.stats = s.countEntered.stats) :
      Passes s s' (.serve i) .accepted .underWay
  | ends {a : Action} (htotal : s'.stats.connectionsTotal = s.stats.connectionsTotal)
      (hactive : s'.stats.connectionsActive = s.stats.connectionsActive - 1) :
      Passes s s' a .underWay .ended

/-- That a connection, if it is under service now, has been so before or comes from having its
options read, and has no signal then. -/
def Admits (a : Action) (i : Nat) (conn conn' : Connection) : Prop :=
  ∀ c, conn' = .serving c → (∃ c₀, conn = .serving c₀) ∨ a = .negotiate i ∧ c.signalled = false

/-- **What a step does** with the connections and what is counted of them. -/
inductive Changes (s s' : Server) (a : Action) : Prop
  | still (hconnections : s'.connections = s.connections) (hstats : s'.stats = s.stats)
  | comes {sink : Sink} (ha : a = .arrive sink)
      (hconnections : s'.connections = s.connections ++ [.arrived {} sink])
      (hstats : s'.stats = s.stats)
  /-- a connection is handed over, and begins at once -/
  | handsOver {sink : Sink} (ha : a = .handOver sink)
      (hconnections : s'.connections = s.connections ++
        [.negotiating [] (s.now + s.settings.handshakeTimeout) {} sink])
      (hstats : s'.stats = s.countEntered.stats)
  /-- something reaches the stream of a connection -/
  | reaches {i : Nat} (f : Source → Source) (ha : a.connection? = some i)
      (hconnections : s'.connections = s.connections.modify i (.mapSource f))
      (hstats : s'.stats = s.stats)
  /-- a connection that is not over goes on -/
  | goesOn {i : Nat} {conn conn' : Connection} (ha : a.connection? = some i)
      (hconn : s.connections[i]? = some conn) (hover : conn.isOver = false)
      (hconnections : s'.connections = s.connections.set i conn')
      (hpasses : Passes s s' a conn.stage conn'.stage) (hadmits : Admits a i conn conn')
  | signals (ha : a = .shutdown) (hconnections : s'.connections = s.connections.map .signal)
      (hstats : s'.stats = s.stats)

/-- A connection under service goes on. -/
theorem Changes.serving {c' : Serving} (hc : s.serving? i = some c) (ha : a.connection? = some i)
    (hconnections : s'.connections = s.connections.set i (.serving c'))
    (htotal : s'.stats.connectionsTotal = s.stats.connectionsTotal)
    (hactive : s'.stats.connectionsActive = s.stats.connectionsActive) : Changes s s' a :=
  .goesOn ha (serving?_eq_some.mp hc) rfl hconnections (.within htotal hactive)
    fun _ _ => .inl ⟨c, rfl⟩

/-- The steps of a connection before its messages are read. -/
theorem changes_opening (ha : a = .accept i ∨ a = .serve i ∨ a = .negotiate i ∨ a = .expire i)
    (hstep : s.step a = some s') : Changes s s' a := by
  rcases ha with rfl | rfl | rfl | rfl
  · simp only [step, accept] at hstep
    split at hstep
    · rename_i hconn
      split at hstep
      · obtain rfl := Option.some.inj hstep
        exact .goesOn rfl hconn rfl rfl (.within rfl rfl) fun _ h => Connection.noConfusion h
      · rename_i hroom
        obtain rfl := Option.some.inj hstep
        exact .goesOn rfl hconn rfl rfl (.accepts (Nat.lt_of_not_le hroom) rfl) fun _ h =>
          Connection.noConfusion h
    · cases hstep
  · simp only [step] at hstep
    split at hstep
    · rename_i hconn
      obtain rfl := Option.some.inj hstep
      exact .goesOn rfl hconn rfl rfl (.begins rfl) fun _ h => Connection.noConfusion h
    · cases hstep
  · simp only [step, negotiate] at hstep
    split at hstep
    · rename_i hconn
      split at hstep
      · obtain rfl := Option.some.inj hstep
        exact .goesOn rfl hconn rfl rfl (.within rfl rfl) fun _ h => Connection.noConfusion h
      · obtain rfl := Option.some.inj hstep
        exact .goesOn rfl hconn rfl rfl (.ends rfl rfl) fun _ h => Connection.noConfusion h
      · obtain rfl := Option.some.inj hstep
        exact .goesOn rfl hconn rfl rfl (.within rfl rfl) fun _ h => .inr
          ⟨rfl, Connection.serving.inj h ▸ rfl⟩
    · cases hstep
  · simp only [step, expire] at hstep
    split at hstep
    · rename_i hconn
      split at hstep
      · split at hstep
        · obtain rfl := Option.some.inj hstep
          exact .goesOn rfl hconn rfl rfl (.ends rfl rfl) fun _ h => Connection.noConfusion h
        · cases hstep
      · cases hstep
    · cases hstep

/-- The steps of a connection under service. -/
theorem changes_serving (hc : s.serving? i = some c) (ha : a.connection? = some i)
    (hstep : s.step a = some s') : Changes s s' a := by
  cases a with
  | receive | hangUp =>
    obtain rfl := Option.some.inj hstep
    exact .reaches _ rfl rfl rfl
  | accept => exact changes_opening (.inl rfl) hstep
  | serve => exact changes_opening (.inr (.inl rfl)) hstep
  | negotiate => exact changes_opening (.inr (.inr (.inl rfl))) hstep
  | expire => exact changes_opening (.inr (.inr (.inr rfl))) hstep
  | call j t =>
    cases ha
    simp only [step, call, hc] at hstep
    repeat' split at hstep
    all_goals cases hstep
    · exact .serving hc rfl (connections_conclude ..) (stats_conclude ..).1 (stats_conclude ..).2
    · exact .serving hc rfl (connections_conclude ..) (stats_conclude ..).1 (stats_conclude ..).2
    · exact .serving hc rfl rfl rfl rfl
  | wake j t =>
    cases ha
    simp only [step, wake, hc] at hstep
    repeat' split at hstep
    all_goals cases hstep
    exact .serving hc rfl (connections_conclude ..) (stats_conclude ..).1 (stats_conclude ..).2
  | read | noticeFailure | noticeShutdown | respond =>
    cases ha
    simp only [step, read, noticeFailure, noticeShutdown, respond, hc] at hstep
    repeat' split at hstep
    all_goals cases hstep
    all_goals exact .serving hc rfl rfl rfl rfl
  | close =>
    cases ha
    simp only [step, close, hc] at hstep
    split at hstep
    · obtain rfl := Option.some.inj hstep
      exact .goesOn rfl (serving?_eq_some.mp hc) rfl rfl (.ends rfl rfl) fun _ h =>
        Connection.noConfusion h
    · cases hstep
  | _ => cases ha

theorem changes_of_step (hstep : s.step a = some s') : Changes s s' a := by
  cases a with
  | arrive sink =>
    obtain rfl := Option.some.inj hstep
    exact .comes rfl rfl rfl
  | handOver sink =>
    obtain rfl := Option.some.inj hstep
    refine .handsOver rfl ((List.set_append_right _ _ (Nat.le_refl _)).trans ?_) rfl
    rw [Nat.sub_self, List.set_cons_zero]
  | receive | hangUp =>
    obtain rfl := Option.some.inj hstep
    exact .reaches _ rfl rfl rfl
  | accept => exact changes_opening (.inl rfl) hstep
  | serve => exact changes_opening (.inr (.inl rfl)) hstep
  | negotiate => exact changes_opening (.inr (.inr (.inl rfl))) hstep
  | expire => exact changes_opening (.inr (.inr (.inr rfl))) hstep
  | shutdown =>
    obtain rfl := Option.some.inj hstep
    exact .signals rfl rfl rfl
  | pass ms =>
    obtain rfl := Option.some.inj hstep
    exact .still rfl rfl
  | listen | subscribe | stopListening =>
    simp only [step] at hstep
    split at hstep
    · obtain rfl := Option.some.inj hstep
      exact .still rfl rfl
    · cases hstep
  | read j | noticeFailure j | noticeShutdown j | respond j | close j | call j | wake j =>
    cases hc : s.serving? j with
    | some c => exact changes_serving hc rfl hstep
    | none =>
      simp [step, read, noticeFailure, noticeShutdown, respond, close, call, wake, hc] at hstep

/-- A connection that has just come is at the listener, or its options are waited for. -/
theorem connection_new (hstep : s.step a = some s') (hnone : s.connections[i]? = none)
    {conn : Connection} (hconn : s'.connections[i]? = some conn) :
    (∃ sink, conn = .arrived {} sink) ∨
      ∃ deadline sink, conn = .negotiating [] deadline {} sink := by
  cases changes_of_step hstep with
  | still hconnections =>
    rw [hconnections, hnone] at hconn
    cases hconn
  | comes _ hconnections =>
    rw [hconnections] at hconn
    rcases getElem?_of_concat hconn with h | ⟨-, rfl⟩
    · cases hnone.symm.trans h
    · exact .inl ⟨_, rfl⟩
  | handsOver _ hconnections =>
    rw [hconnections] at hconn
    rcases getElem?_of_concat hconn with h | ⟨-, rfl⟩
    · cases hnone.symm.trans h
    · exact .inr ⟨_, _, rfl⟩
  | reaches f _ hconnections =>
    rw [hconnections, List.getElem?_modify, hnone] at hconn
    cases hconn
  | goesOn _ hconn₁ _ hconnections =>
    rw [hconnections] at hconn
    rcases getElem?_of_set hconn with ⟨rfl, -⟩ | ⟨-, h⟩
    · cases hnone.symm.trans hconn₁
    · cases hnone.symm.trans h
  | signals _ hconnections =>
    rw [hconnections, List.getElem?_map, hnone] at hconn
    cases hconn

/-! ## What becomes of the connections -/

/-- **How a step changes the connections.** -/
inductive Alters (s : Server) (a : Action) : List Connection → Prop
  | still : Alters s a s.connections
  /-- a new one comes -/
  | adds (conn : Connection) : Alters s a (s.connections ++ [conn])
  /-- something reaches the stream of one of them -/
  | reaches {i : Nat} (f : Source → Source) (ha : a.connection? = some i) :
      Alters s a (s.connections.modify i (.mapSource f))
  /-- one of them that is not over goes on -/
  | goesOn {i : Nat} {conn : Connection} (conn' : Connection) (ha : a.connection? = some i)
      (hconn : s.connections[i]? = some conn) (hover : conn.isOver = false) :
      Alters s a (s.connections.set i conn')
  | signals (ha : a = .shutdown) : Alters s a (s.connections.map Connection.signal)

/-- **Every step changes the connections in one of these ways.** -/
theorem alters_of_step (hstep : s.step a = some s') : s.Alters a s'.connections := by
  cases changes_of_step hstep with
  | still hconnections => exact hconnections ▸ .still
  | comes _ hconnections => exact hconnections ▸ .adds _
  | handsOver _ hconnections => exact hconnections ▸ .adds _
  | reaches f ha hconnections => exact hconnections ▸ .reaches f ha
  | goesOn ha hconn hover hconnections => exact hconnections ▸ .goesOn _ ha hconn hover
  | signals ha hconnections => exact hconnections ▸ .signals ha

/-- A connection changes only in a step that is about it, or in a shutdown. -/
theorem connections_step_ne (hstep : s.step a = some s') (ha : a.connection? ≠ some i)
    (hshutdown : a ≠ .shutdown) {conn : Connection} (hconn : s.connections[i]? = some conn) :
    s'.connections[i]? = some conn := by
  have hother : ∀ {j : Nat}, a.connection? = some j → j ≠ i := by
    rintro j hj rfl
    exact ha hj
  have halters := alters_of_step hstep
  generalize s'.connections = connections at halters ⊢
  cases halters with
  | still => exact hconn
  | adds =>
    rw [List.getElem?_append_left (List.getElem?_eq_some_iff.mp hconn).1]
    exact hconn
  | reaches f hj =>
    rw [List.getElem?_modify_ne _ _ (hother hj)]
    exact hconn
  | goesOn conn' hj =>
    rw [List.getElem?_set_ne (hother hj)]
    exact hconn
  | signals ha => exact absurd ha hshutdown

/-- No connection is forgotten. -/
theorem length_connections_step (hstep : s.step a = some s') :
    s.connections.length ≤ s'.connections.length := by
  have halters := alters_of_step hstep
  generalize s'.connections = connections at halters ⊢
  cases halters with
  | still => exact Nat.le_refl _
  | adds =>
    rw [List.length_append]
    exact Nat.le_add_right _ _
  | reaches => exact Nat.le_of_eq (List.length_modify _ _ _).symm
  | goesOn => exact Nat.le_of_eq List.length_set.symm
  | signals => exact Nat.le_of_eq (List.length_map _).symm

/-- A connection that is over stays as it is. -/
theorem connections_over {conn : Connection} (hover : conn.isOver)
    (hconn : s.connections[i]? = some conn) (hstep : s.step a = some s') :
    s'.connections[i]? = some conn := by
  have halters := alters_of_step hstep
  generalize s'.connections = connections at halters ⊢
  cases halters with
  | still => exact hconn
  | adds =>
    rw [List.getElem?_append_left (List.getElem?_eq_some_iff.mp hconn).1]
    exact hconn
  | @reaches j f =>
    rw [List.getElem?_modify, hconn]
    split
    · cases conn <;> first | rfl | cases hover
    · rfl
  | @goesOn j conn₁ conn' _ hconn₁ hover₁ =>
    -- the one that goes on is another one
    have hne : j ≠ i := by
      rintro rfl
      obtain rfl := Option.some.inj (hconn.symm.trans hconn₁)
      exact Bool.noConfusion (hover.symm.trans hover₁)
    rw [List.getElem?_set_ne hne]
    exact hconn
  | signals =>
    rw [List.getElem?_map, hconn]
    cases conn <;> first | rfl | cases hover

end Server

end WireCall
