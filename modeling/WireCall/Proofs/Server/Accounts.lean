import WireCall.Proofs.Run
import WireCall.Proofs.Server.Connections

/-!
# What a server counts of its connections

A connection is counted when its serving begins and, as under way, until its serving ends. Each step
of the server changes the stages of its connections (`Connection.stage`) together with what is
counted of them (`Server.Books`). So the server counts as under way just the connections that are,
and it has counted just those that have begun (`Server.balanced_of_run`). It counts in 64 bits, so
that both numbers are right modulo 2^64.

What the steps about one connection change in what is counted is their net effect (`Server.net`).
-/

namespace WireCall

namespace Stage

/-- Whether the serving has begun. It may have ended since. -/
def hasBegun : Stage → Bool
  | .outside | .accepted => false
  | .underWay | .ended => true

/-- Whether the serving has begun and not ended. -/
def isUnderWay : Stage → Bool
  | .underWay => true
  | _ => false

end Stage

namespace Connection

@[simp]
theorem stage_mapSource (conn : Connection) (f : Source → Source) :
    (conn.mapSource f).stage = conn.stage := by
  cases conn <;> rfl

@[simp]
theorem stage_signal (conn : Connection) : conn.signal.stage = conn.stage := by
  cases conn <;> rfl

end Connection

namespace Server

variable {s s' : Server} {i : Nat} {a : Action} {conn : Connection}

/-! ## Stages -/

/-- Where the serving of each connection stands. -/
def stages (s : Server) : List Stage := s.connections.map Connection.stage

theorem stages_getElem? (hconn : s.connections[i]? = some conn) :
    s.stages[i]? = some conn.stage := by
  rw [stages, List.getElem?_map, hconn]
  rfl

theorem stages_mapSource (s : Server) (i : Nat) (f : Source → Source) :
    (s.connections.modify i (.mapSource f)).map Connection.stage = s.stages :=
  map_modify_of_eq (fun conn => Connection.stage_mapSource conn f) s.connections i

/-- **How a step changes the stages, and what is counted of them.** -/
inductive Books (s s' : Server) : Action → Prop
  /-- nothing begins and nothing ends -/
  | still {a : Action} (hstages : s'.stages = s.stages)
      (htotal : s'.stats.connectionsTotal = s.stats.connectionsTotal)
      (hactive : s'.stats.connectionsActive = s.stats.connectionsActive) : Books s s' a
  /-- a client arrives at the listener -/
  | comes {sink : Sink} (hstages : s'.stages = s.stages ++ [.outside])
      (htotal : s'.stats.connectionsTotal = s.stats.connectionsTotal)
      (hactive : s'.stats.connectionsActive = s.stats.connectionsActive) : Books s s' (.arrive sink)
  /-- a connection is accepted, as there is room for it -/
  | accepts {i : Nat} (hroom : s.stats.connectionsActive.toNat < s.settings.maxConnections)
      (hstage : s.stages[i]? = some .outside) (hstages : s'.stages = s.stages.set i .accepted)
      (htotal : s'.stats.connectionsTotal = s.stats.connectionsTotal)
      (hactive : s'.stats.connectionsActive = s.stats.connectionsActive) : Books s s' (.accept i)
  /-- an accepted connection begins to be served -/
  | begins {i : Nat} (hstage : s.stages[i]? = some .accepted)
      (hstages : s'.stages = s.stages.set i .underWay)
      (htotal : s'.stats.connectionsTotal = s.stats.connectionsTotal + 1)
      (hactive : s'.stats.connectionsActive = s.stats.connectionsActive + 1) :
      Books s s' (.serve i)
  /-- a connection is handed over, and begins at once -/
  | handsOver {sink : Sink} (hstages : s'.stages = s.stages ++ [.underWay])
      (htotal : s'.stats.connectionsTotal = s.stats.connectionsTotal + 1)
      (hactive : s'.stats.connectionsActive = s.stats.connectionsActive + 1) :
      Books s s' (.handOver sink)
  /-- the serving of a connection ends -/
  | ends {a : Action} {i : Nat} (ha : a.connection? = some i)
      (hstage : s.stages[i]? = some .underWay) (hstages : s'.stages = s.stages.set i .ended)
      (htotal : s'.stats.connectionsTotal = s.stats.connectionsTotal)
      (hactive : s'.stats.connectionsActive = s.stats.connectionsActive - 1) : Books s s' a

/-- A connection passes from one stage to another. -/
theorem Passes.books {g g' : Stage} (h : Passes s s' a g g') (ha : a.connection? = some i)
    (hstage : s.stages[i]? = some g) (hstages : s'.stages = s.stages.set i g') :
    Books s s' a := by
  cases h with
  | within htotal hactive =>
    obtain ⟨hlt, hget⟩ := List.getElem?_eq_some_iff.mp hstage
    rw [← hget, List.set_getElem_self] at hstages
    exact .still hstages htotal hactive
  | accepts hroom hstats =>
    cases ha
    exact .accepts hroom hstage hstages (by rw [hstats]) (by rw [hstats])
  | begins hstats =>
    cases ha
    exact .begins hstage hstages (by rw [hstats]; rfl) (by rw [hstats]; rfl)
  | ends htotal hactive => exact .ends ha hstage hstages htotal hactive

/-- **Every step keeps the books.** -/
theorem books_of_step (hstep : s.step a = some s') : Books s s' a := by
  cases changes_of_step hstep with
  | still hconnections hstats =>
    exact .still (by rw [stages, hconnections, stages]) (by rw [hstats]) (by rw [hstats])
  | comes ha hconnections hstats =>
    subst ha
    refine .comes ?_ (by rw [hstats]) (by rw [hstats])
    rw [stages, hconnections, List.map_append]
    rfl
  | handsOver ha hconnections hstats =>
    subst ha
    refine .handsOver ?_ (by rw [hstats]; rfl) (by rw [hstats]; rfl)
    rw [stages, hconnections, List.map_append]
    rfl
  | reaches f ha hconnections hstats =>
    refine .still ?_ (by rw [hstats]) (by rw [hstats])
    rw [stages, hconnections, stages_mapSource]
  | goesOn ha hconn _ hconnections hpasses =>
    refine hpasses.books ha (stages_getElem? hconn) ?_
    rw [stages, hconnections, List.map_set]
    rfl
  | signals ha hconnections hstats =>
    refine .still ?_ (by rw [hstats]) (by rw [hstats])
    rw [stages, hconnections, List.map_map]
    exact List.map_congr_left fun conn _ => conn.stage_signal

/-! ## What is counted -/

/-- **The books are balanced**: the connections that are counted are those that have begun, and
those that are counted as under way are those that are. -/
structure Balanced (s : Server) : Prop where
  total : s.stats.connectionsTotal = .ofNat (s.stages.countP Stage.hasBegun)
  active : s.stats.connectionsActive = .ofNat (s.stages.countP Stage.isUnderWay)

/-- A number that counts the members of a list that have some property counts one more with it, if
it has the property. -/
theorem ofNat_countP_concat {p : Stage → Bool} {g : Stage} (stages : List Stage) :
    UInt64.ofNat ((stages ++ [g]).countP p) = .ofNat (stages.countP p) + .ofNat (p g).toNat := by
  rw [List.countP_append, UInt64.ofNat_add, List.countP_singleton]
  cases p g <;> rfl

/-- A number that counts the members of a list that have some property, if one of them changes. -/
theorem ofNat_countP_set {p : Stage → Bool} {stages : List Stage} {g : Stage}
    (hstage : stages[i]? = some g) (g' : Stage) {count : UInt64}
    (hcount : count + .ofNat (p g).toNat = .ofNat (stages.countP p) + .ofNat (p g').toNat) :
    count = .ofNat ((stages.set i g').countP p) := by
  rw [← UInt64.ofNat_add, ← countP_set_add hstage, UInt64.ofNat_add] at hcount
  exact (UInt64.add_left_inj _).mp hcount

theorem Balanced.step (h : s.Balanced) (hstep : s.step a = some s') : s'.Balanced := by
  cases books_of_step hstep with
  | still hstages htotal hactive =>
    exact ⟨by rw [htotal, hstages, h.total], by rw [hactive, hstages, h.active]⟩
  | comes hstages htotal hactive =>
    refine ⟨?_, ?_⟩
    · rw [htotal, hstages, h.total, ofNat_countP_concat]
      exact (UInt64.add_zero _).symm
    · rw [hactive, hstages, h.active, ofNat_countP_concat]
      exact (UInt64.add_zero _).symm
  | handsOver hstages htotal hactive =>
    refine ⟨?_, ?_⟩
    · rw [htotal, hstages, h.total, ofNat_countP_concat]
      rfl
    · rw [hactive, hstages, h.active, ofNat_countP_concat]
      rfl
  | accepts _ hstage hstages htotal hactive =>
    refine ⟨hstages ▸ ofNat_countP_set hstage _ ?_, hstages ▸ ofNat_countP_set hstage _ ?_⟩
    · rw [htotal, h.total]
      rfl
    · rw [hactive, h.active]
      rfl
  | begins hstage hstages htotal hactive =>
    refine ⟨hstages ▸ ofNat_countP_set hstage _ ?_, hstages ▸ ofNat_countP_set hstage _ ?_⟩
    · rw [htotal, h.total]
      exact UInt64.add_zero _
    · rw [hactive, h.active]
      exact UInt64.add_zero _
  | ends _ hstage hstages htotal hactive =>
    refine ⟨hstages ▸ ofNat_countP_set hstage _ ?_, hstages ▸ ofNat_countP_set hstage _ ?_⟩
    · rw [htotal, h.total]
      rfl
    · rw [hactive, h.active]
      exact (UInt64.sub_add_cancel _ 1).trans (UInt64.add_zero _).symm

/-- **A server counts its connections.** At every moment it has counted just those that have begun,
and counts as under way just those that are, modulo 2^64. -/
theorem balanced_of_run {settings : ServerSettings} {registry : Registry} {actions : List Action}
    (hrun : run { settings, registry } actions = some s) : s.Balanced :=
  Run.keeps (fun h hstep => h.step hstep) ⟨rfl, rfl⟩ hrun

/-! ## What one connection changes -/

/-- **The serving of a connection begins**, with what has arrived on it and where it writes. -/
def Begins (s₀ : Server) (i : Nat) (source : Source) (sink : Sink) (s₁ : Server) : Prop :=
  (s₀.connections[i]? = some (.accepted source sink) ∧ s₀.step (.serve i) = some s₁) ∨
    (i = s₀.connections.length ∧ source = {} ∧ s₀.step (.handOver sink) = some s₁)

/-- **The steps about one connection**, each with the states before and behind it. The first is the
one with which its serving begins. -/
def ownSteps (i : Nat) (s₀ s₁ : Server) (actions : List Action) : List (Server × Server) :=
  (s₀, s₁) :: Run.log step
    (fun m a => if a.connection? = some i then (m.step a).toList.map (m, ·) else []) s₁ actions

/-- By how much a number of 64 bits has gone up, or down, in a step that changes it by less than
2^63. -/
def gain (n n' : UInt64) : Int := (n' - n).toInt64.toInt

/-- The net effect of some steps on what is counted. -/
def net (count : Stats → UInt64) : List (Server × Server) → Int
  | [] => 0
  | (s, s') :: steps => gain (count s.stats) (count s'.stats) + net count steps

variable {s₀ s₁ m : Server} {actions : List Action} {source : Source} {sink : Sink}

theorem ownSteps_own (hm : s₁.run actions = some m) (hstep : m.step a = some s')
    (ha : a.connection? = some i) :
    ownSteps i s₀ s₁ (actions ++ [a]) = ownSteps i s₀ s₁ actions ++ [(m, s')] := by
  rw [ownSteps, Run.log_concat hm hstep, if_pos ha, hstep]
  rfl

theorem ownSteps_other (hm : s₁.run actions = some m) (hstep : m.step a = some s')
    (ha : a.connection? ≠ some i) :
    ownSteps i s₀ s₁ (actions ++ [a]) = ownSteps i s₀ s₁ actions := by
  rw [ownSteps, Run.log_concat hm hstep, if_neg ha, List.append_nil]
  rfl

@[simp]
theorem gain_self (n : UInt64) : gain n n = 0 := by
  rw [gain, UInt64.sub_self]
  rfl

@[simp]
theorem gain_add_one (n : UInt64) : gain n (n + 1) = 1 := by
  rw [gain, UInt64.add_comm, UInt64.add_sub_cancel]
  rfl

@[simp]
theorem gain_sub_one (n : UInt64) : gain n (n - 1) = -1 := by
  have hdown : n - 1 - n = -1 :=
    UInt64.sub_eq_iff_eq_add.mpr ((UInt64.sub_eq_add_neg n 1).trans (UInt64.add_comm n (-1)))
  rw [gain, hdown]
  rfl

theorem net_singleton (count : Stats → UInt64) (s s' : Server) :
    net count [(s, s')] = gain (count s.stats) (count s'.stats) := by
  rw [net, net, Int.add_zero]

theorem net_concat (count : Stats → UInt64) (steps : List (Server × Server)) (s s' : Server) :
    net count (steps ++ [(s, s')]) =
      net count steps + gain (count s.stats) (count s'.stats) := by
  induction steps with
  | nil => rw [List.nil_append, net_singleton, net, Int.zero_add]
  | cons p steps ih => rw [List.cons_append, net, net, ih, Int.add_assoc]

/-- How the serving of a connection begins. -/
theorem Begins.negotiating (h : Begins s₀ i source sink s₁) :
    s₁.connections[i]? =
        some (.negotiating [] (s₀.now + s₀.settings.handshakeTimeout) source sink) ∧
      s₁.registry = s₀.registry ∧ s₁.stats = s₀.countEntered.stats ∧
      ∃ a, s₀.step a = some s₁ := by
  rcases h with ⟨hconn, hstep⟩ | ⟨rfl, rfl, hstep⟩
  · refine ⟨?_, ?_, ?_, _, hstep⟩
    all_goals
      simp only [step, hconn] at hstep
      obtain rfl := Option.some.inj hstep
    · exact connections_setConnection_self hconn _
    · rfl
    · rfl
  · refine ⟨?_, ?_, ?_, _, hstep⟩
    all_goals obtain rfl := Option.some.inj hstep
    · simp [enter, setConnection, countEntered]
    · rfl
    · rfl

/-- A step that is not about a connection leaves its stage. -/
theorem Books.other (h : Books s s' a) (ha : a.connection? ≠ some i) {g : Stage}
    (hg : s.stages[i]? = some g) : s'.stages[i]? = some g := by
  have hne : ∀ {j : Nat}, a.connection? = some j → j ≠ i := by
    rintro j hj rfl
    exact ha hj
  have hlt := (List.getElem?_eq_some_iff.mp hg).1
  cases h with
  | still hstages => rw [hstages, hg]
  | comes hstages => rw [hstages, List.getElem?_append_left hlt, hg]
  | handsOver hstages => rw [hstages, List.getElem?_append_left hlt, hg]
  | accepts _ _ hstages => rw [hstages, List.getElem?_set_ne (hne rfl), hg]
  | begins _ hstages => rw [hstages, List.getElem?_set_ne (hne rfl), hg]
  | ends hj _ hstages => rw [hstages, List.getElem?_set_ne (hne hj), hg]

/-- A step about a connection whose serving has begun counts none, and one less as under way if the
serving ends. -/
theorem Books.own (h : Books s s' a) (ha : a.connection? = some i)
    {g : Stage} (hg : s.stages[i]? = some g) (hbegun : g.hasBegun = true) :
    ∃ g', s'.stages[i]? = some g' ∧ g'.hasBegun = true ∧
      s'.stats.connectionsTotal = s.stats.connectionsTotal ∧
      gain s.stats.connectionsActive s'.stats.connectionsActive =
        g'.isUnderWay.toNat - g.isUnderWay.toNat := by
  cases h with
  | still hstages htotal hactive =>
    exact ⟨g, by rw [hstages, hg], hbegun, htotal, by rw [hactive, gain_self, Int.sub_self]⟩
  | comes => cases ha
  | handsOver => cases ha
  | accepts _ hstage =>
    obtain rfl := Option.some.inj ha
    obtain rfl := Option.some.inj (hg.symm.trans hstage)
    cases hbegun
  | begins hstage =>
    obtain rfl := Option.some.inj ha
    obtain rfl := Option.some.inj (hg.symm.trans hstage)
    cases hbegun
  | ends hj hstage hstages htotal hactive =>
    obtain rfl := Option.some.inj (ha.symm.trans hj)
    obtain rfl := Option.some.inj (hg.symm.trans hstage)
    refine ⟨.ended, ?_, rfl, htotal, ?_⟩
    · rw [hstages, List.getElem?_set_self (List.getElem?_eq_some_iff.mp hg).1]
    · rw [hactive]
      exact gain_sub_one _

/-- **A connection is counted once**, and as under way until its serving ends. -/
theorem net_connections (hbegins : Begins s₀ i source sink s₁) (hrun : s₁.run actions = some s) :
    ∃ g, s.stages[i]? = some g ∧ g.hasBegun = true ∧
      net Stats.connectionsTotal (ownSteps i s₀ s₁ actions) = 1 ∧
      net Stats.connectionsActive (ownSteps i s₀ s₁ actions) = g.isUnderWay.toNat := by
  obtain ⟨hconn, -, hstats, -⟩ := hbegins.negotiating
  refine Run.induct (P := fun as s => ∃ g, s.stages[i]? = some g ∧
    g.hasBegun = true ∧ net Stats.connectionsTotal (ownSteps i s₀ s₁ as) = 1 ∧
    net Stats.connectionsActive (ownSteps i s₀ s₁ as) = g.isUnderWay.toNat) ?_ ?_ actions s hrun
  · refine ⟨.underWay, stages_getElem? hconn, rfl, ?_, ?_⟩
    all_goals
      rw [ownSteps, Run.log_nil, net_singleton, hstats]
      exact gain_add_one _
  · rintro as m a s' hm ⟨g, hg, hbegun, htotal, hactive⟩ hstep
    have hbooks := books_of_step hstep
    by_cases ha : a.connection? = some i
    · obtain ⟨g', hg', hbegun', htotal', hactive'⟩ := hbooks.own ha hg hbegun
      rw [ownSteps_own hm hstep ha, net_concat, net_concat, htotal', gain_self]
      exact ⟨g', hg', hbegun', by omega, by omega⟩
    · rw [ownSteps_other hm hstep ha]
      exact ⟨g, hbooks.other ha hg, hbegun, htotal, hactive⟩

end Server

end WireCall
