import WireCall.Proofs.Server.Accounts

/-!
# The limit on connections

The accepting loop compares the number of connections under way with the limit, but a connection is
counted only when its serving begins, on a task of its own. A connection that has been accepted and
has not begun (`Server.unbegun`) is seen by nobody, so the limit may be passed. Every step keeps a
simple tally of these connections and of those under way (`Server.Tally`).

By how much the limit is passed depends on how many connections had not begun when the loop took
another one (`Server.backlogs`): at most by their greatest number, and by no less
(`Server.active_le_limit`). So the limit holds as long as each connection begins before the next one
is accepted. If two clients wait at the listener, nothing makes it so (`Server.limit_passed`).
-/

namespace WireCall

/-- Whether the connection has been accepted, and its serving has not begun. -/
def Connection.isAccepted : Connection → Bool
  | .accepted _ _ => true
  | _ => false

namespace Server

variable {s s' : Server} {i : Nat} {a : Action}

/-! ## What is counted -/

/-- How many connections have been accepted and have not begun to be served. -/
def unbegun (s : Server) : Nat := s.connections.countP Connection.isAccepted

/-- How many connections are under way. -/
def active (s : Server) : Nat := s.stages.countP Stage.isUnderWay

theorem stages_setConnection (s : Server) (i : Nat) (conn : Connection) :
    (s.setConnection i conn).stages = s.stages.set i conn.stage := List.map_set

/-- What is counted as under way is never more than what is under way. -/
theorem Balanced.connectionsActive_le (h : s.Balanced) :
    s.stats.connectionsActive.toNat ≤ s.active := by
  rw [h.active, UInt64.toNat_ofNat']
  exact Nat.mod_le _ _

theorem unbegun_eq (s : Server) : s.unbegun = s.stages.countP (· = .accepted) := by
  rw [unbegun, stages, List.countP_map]
  congr 1
  funext conn
  cases conn <;> rfl

/-- How many connections have not begun if one of them passes from one stage to another. -/
theorem unbegun_set {g g' : Stage} (hstage : s.stages[i]? = some g)
    (hstages : s'.stages = s.stages.set i g') :
    s'.unbegun + (decide (g = .accepted)).toNat =
      s.unbegun + (decide (g' = .accepted)).toNat := by
  rw [unbegun_eq, unbegun_eq, hstages]
  exact countP_set_add hstage g'

/-- How many connections are under way then. -/
theorem active_set {g g' : Stage} (hstage : s.stages[i]? = some g)
    (hstages : s'.stages = s.stages.set i g') :
    s'.active + g.isUnderWay.toNat = s.active + g'.isUnderWay.toNat := by
  rw [active, active, hstages]
  exact countP_set_add hstage g'

/-- **How a step changes the two numbers.** -/
inductive Tally (s s' : Server) : Action → Prop
  /-- nothing begins and nothing is accepted -/
  | still {a : Action} (hactive : s'.active ≤ s.active) (hunbegun : s'.unbegun = s.unbegun) :
      Tally s s' a
  /-- a connection is accepted, as there is room for it -/
  | accepts {i : Nat} (hroom : s.stats.connectionsActive.toNat < s.settings.maxConnections)
      (hactive : s'.active = s.active) (hunbegun : s'.unbegun = s.unbegun + 1) :
      Tally s s' (.accept i)
  /-- an accepted connection begins to be served -/
  | begins {i : Nat} (hactive : s'.active = s.active + 1)
      (hunbegun : s'.unbegun + 1 = s.unbegun) : Tally s s' (.serve i)
  /-- a connection is handed over, and begins at once -/
  | handsOver {sink : Sink} (hactive : s'.active = s.active + 1)
      (hunbegun : s'.unbegun = s.unbegun) : Tally s s' (.handOver sink)

/-- **Every step keeps the tally.** -/
theorem tally_of_step (hstep : s.step a = some s') : Tally s s' a := by
  cases books_of_step hstep with
  | still hstages =>
    refine .still (Nat.le_of_eq (congrArg (List.countP _) hstages)) ?_
    rw [unbegun_eq, unbegun_eq, hstages]
  | comes hstages =>
    refine .still (Nat.le_of_eq ?_) ?_
    · rw [active, active, hstages, List.countP_append]
      rfl
    · rw [unbegun_eq, unbegun_eq, hstages, List.countP_append]
      rfl
  | handsOver hstages =>
    refine .handsOver ?_ ?_
    · rw [active, active, hstages, List.countP_append]
      rfl
    · rw [unbegun_eq, unbegun_eq, hstages, List.countP_append]
      rfl
  | accepts hroom hstage hstages =>
    exact .accepts hroom (active_set hstage hstages) (unbegun_set hstage hstages)
  | begins hstage hstages =>
    exact .begins (active_set hstage hstages) (unbegun_set hstage hstages)
  | ends _ hstage hstages =>
    exact .still (Nat.le_of_succ_le (Nat.le_of_eq (active_set hstage hstages)))
      (unbegun_set hstage hstages)

/-! ## The limit may be passed by the backlog -/

/-- How many accepted connections have not begun when the loop takes another one. -/
def backlog (s : Server) : Action → List Nat
  | .accept _ => [s.unbegun]
  | _ => []

/-- **The backlogs of a run.** -/
def backlogs (s : Server) (actions : List Action) : List Nat := Run.log step backlog s actions

/-- The connections under way and those that have not begun are not more than the limit and the
greatest backlog, if these are numbers of 64 bits. -/
theorem active_add_unbegun_le {s₀ : Server} {k : Nat} (hbalanced : s₀.Balanced)
    (hfits : s₀.settings.maxConnections + k < 0x10000000000000000)
    (hstart : s₀.active + s₀.unbegun ≤ s₀.settings.maxConnections + k) {actions : List Action}
    (hrun : s₀.run actions = some s) (hown : ∀ sink, .handOver sink ∉ actions)
    (hbacklogs : ∀ b ∈ s₀.backlogs actions, b ≤ k) :
    s.active + s.unbegun ≤ s₀.settings.maxConnections + k := by
  suffices h : s.Balanced ∧ s.settings = s₀.settings ∧
      s.active + s.unbegun ≤ s₀.settings.maxConnections + k from h.2.2
  refine Run.induct (P := fun as s => (∀ sink, .handOver sink ∉ as) →
    (∀ b ∈ s₀.backlogs as, b ≤ k) → s.Balanced ∧ s.settings = s₀.settings ∧
      s.active + s.unbegun ≤ s₀.settings.maxConnections + k) ?_ ?_ actions s hrun hown hbacklogs
  · intro _ _
    exact ⟨hbalanced, rfl, hstart⟩
  · intro as m a s' hm ih hstep hown hbacklogs
    rw [backlogs, Run.log_concat hm hstep] at hbacklogs
    obtain ⟨hbalanced, hsettings, hle⟩ := ih (fun sink h => hown sink (List.mem_append_left _ h))
      (fun b hb => hbacklogs b (List.mem_append_left _ hb))
    refine ⟨hbalanced.step hstep, (spares_of_step hstep).settings.trans hsettings, ?_⟩
    cases tally_of_step hstep with
    | still hactive hunbegun => omega
    | accepts hroom hactive hunbegun =>
      have hfew : m.unbegun ≤ k :=
        hbacklogs _ (List.mem_append_right _ (List.mem_singleton_self _))
      -- so few are under way that their number is the one that the loop sees
      have hseen : m.stats.connectionsActive.toNat = m.active := by
        rw [hbalanced.active]
        exact UInt64.toNat_ofNat_of_lt' (Nat.lt_of_le_of_lt (Nat.le_of_add_right_le hle) hfits)
      rw [hsettings, hseen] at hroom
      omega
    | begins hactive hunbegun => omega
    | handsOver => exact absurd (List.mem_append_right _ (List.mem_singleton_self _)) (hown _)

/-! ## The limit is passed by the backlog -/

/-- **A queue before the loop**: the first connections are under way, those behind them have been
accepted, and the others wait at the listener. -/
structure Queue (s : Server) (begun taken total : Nat) : Prop where
  listening : s.listening = .accepting false
  balanced : s.Balanced
  active : s.active = begun
  unbegun : s.unbegun = taken
  accepted : ∀ i, begun ≤ i → i < begun + taken →
    ∃ source sink, s.connections[i]? = some (.accepted source sink)
  arrived : ∀ i, begun + taken ≤ i → i < total →
    ∃ source sink, s.connections[i]? = some (.arrived source sink)

/-- The server comes from one state to another, hands over no connection, and leaves a backlog of at
most the given number. -/
def Grows (k : Nat) (s s' : Server) : Prop :=
  ∃ actions, s.run actions = some s' ∧ (∀ sink, .handOver sink ∉ actions) ∧
    ∀ b ∈ s.backlogs actions, b ≤ k

variable {k begun taken total : Nat}

theorem Grows.refl (k : Nat) (s : Server) : Grows k s s := ⟨[], rfl, nofun, nofun⟩

theorem Grows.snoc {m : Server} (h : Grows k s m) (hstep : m.step a = some s')
    (hown : ∀ sink, a ≠ .handOver sink) (hbacklog : ∀ b ∈ m.backlog a, b ≤ k) :
    Grows k s s' := by
  obtain ⟨actions, hrun, hown', hbacklogs⟩ := h
  refine ⟨actions ++ [a], Run.concat_eq_some.mpr ⟨m, hrun, hstep⟩, ?_, ?_⟩
  · intro sink hmem
    rcases List.mem_append.mp hmem with hmem | hmem
    · exact hown' sink hmem
    · exact hown sink (List.mem_singleton.mp hmem).symm
  · intro b hb
    rw [backlogs, Run.log_concat hrun hstep] at hb
    rcases List.mem_append.mp hb with hb | hb
    · exact hbacklogs b hb
    · exact hbacklog b hb

/-- The loop takes the next one, as long as there is room. -/
theorem Queue.accept (h : s.Queue begun taken total) (hroom : begun < s.settings.maxConnections)
    (hwaits : begun + taken < total) :
    ∃ s', s.step (.accept (begun + taken)) = some s' ∧ s'.Queue begun (taken + 1) total := by
  obtain ⟨source, sink, hconn⟩ := h.arrived _ (Nat.le_refl _) hwaits
  have hstep : s.step (.accept (begun + taken)) =
      some (s.setConnection (begun + taken) (.accepted source sink)) := by
    have hopen : ¬ s.stats.connectionsActive.toNat ≥ s.settings.maxConnections := by
      have hle := h.balanced.connectionsActive_le
      rw [h.active] at hle
      exact Nat.not_le_of_lt (Nat.lt_of_le_of_lt hle hroom)
    simp only [step, Server.accept, h.listening, hconn, if_neg hopen]
  have hstage := stages_getElem? hconn
  have hstages := stages_setConnection s (begun + taken) (.accepted source sink)
  refine ⟨_, hstep, h.listening, h.balanced.step hstep,
    (active_set hstage hstages).trans h.active,
    (unbegun_set hstage hstages).trans (congrArg (· + 1) h.unbegun), ?_, ?_⟩
  · intro i hle hlt
    have hsplit : i < begun + taken ∨ i = begun + taken := by omega
    rcases hsplit with hlt | rfl
    · obtain ⟨source', sink', hi⟩ := h.accepted i hle hlt
      refine ⟨source', sink', ?_⟩
      rw [setConnection, List.getElem?_set_ne (by omega)]
      exact hi
    · exact ⟨source, sink, connections_setConnection_self hconn _⟩
  · intro i hle hlt
    obtain ⟨source', sink', hi⟩ := h.arrived i (by omega) hlt
    refine ⟨source', sink', ?_⟩
    rw [setConnection, List.getElem?_set_ne (by omega)]
    exact hi

/-- The first one that has been accepted begins. -/
theorem Queue.serve (h : s.Queue begun (taken + 1) total) :
    ∃ s', s.step (.serve begun) = some s' ∧ s'.Queue (begun + 1) taken total := by
  obtain ⟨source, sink, hconn⟩ := h.accepted begun (Nat.le_refl _) (by omega)
  have hstep : s.step (.serve begun) = some (s.enter begun source sink) := by
    simp only [step, hconn]
  have hstage := stages_getElem? hconn
  have hstages : (s.enter begun source sink).stages = s.stages.set begun .underWay :=
    stages_setConnection ..
  refine ⟨_, hstep, h.listening, h.balanced.step hstep,
    (active_set hstage hstages).trans (congrArg (· + 1) h.active),
    Nat.succ.inj ((unbegun_set hstage hstages).trans h.unbegun), ?_, ?_⟩
  · intro i hle hlt
    obtain ⟨source', sink', hi⟩ := h.accepted i (by omega) (by omega)
    refine ⟨source', sink', ?_⟩
    exact (List.getElem?_set_ne (by omega)).trans hi
  · intro i hle hlt
    obtain ⟨source', sink', hi⟩ := h.arrived i (by omega) hlt
    refine ⟨source', sink', ?_⟩
    exact (List.getElem?_set_ne (by omega)).trans hi

/-- The loop takes several, as long as there is room and the backlog is not too great. -/
theorem Queue.exists_accepted {s₀ : Server} (h : s.Queue begun 0 total) (hgrows : Grows k s₀ s)
    (hroom : begun < s.settings.maxConnections) :
    ∀ n ≤ k + 1, begun + n ≤ total →
      ∃ s', Grows k s₀ s' ∧ s'.settings = s.settings ∧ s'.Queue begun n total := by
  intro n
  induction n with
  | zero => exact fun _ _ => ⟨s, hgrows, rfl, h⟩
  | succ n ih =>
    intro hle htotal
    obtain ⟨m, hgrows', hsettings, hqueue⟩ :=
      ih (Nat.le_of_succ_le hle) (Nat.le_of_succ_le htotal)
    obtain ⟨s', hstep, hqueue'⟩ := hqueue.accept (hsettings ▸ hroom) htotal
    refine ⟨s', hgrows'.snoc hstep nofun ?_, (spares_of_step hstep).settings.trans hsettings,
      hqueue'⟩
    intro b hb
    obtain rfl := List.mem_singleton.mp hb
    rw [hqueue.unbegun]
    exact Nat.le_of_succ_le_succ hle

/-- All that have been accepted begin. -/
theorem Queue.exists_begun {s₀ : Server} (h : s.Queue begun taken total) (hgrows : Grows k s₀ s) :
    ∃ s', Grows k s₀ s' ∧ s'.settings = s.settings ∧ s'.Queue (begun + taken) 0 total := by
  induction taken generalizing s begun with
  | zero => exact ⟨s, hgrows, rfl, h⟩
  | succ n ih =>
    obtain ⟨m, hstep, hqueue⟩ := h.serve
    obtain ⟨s', hgrows', hsettings, hqueue'⟩ :=
      ih hqueue (hgrows.snoc hstep nofun (fun _ h => absurd h List.not_mem_nil))
    refine ⟨s', hgrows', hsettings.trans (spares_of_step hstep).settings, ?_⟩
    rwa [Nat.add_right_comm] at hqueue'

/-- One after another is accepted and begins, as long as there is room. -/
theorem Queue.exists_one_by_one {s₀ : Server} (h : s.Queue 0 0 total) (hgrows : Grows k s₀ s) :
    ∀ n ≤ s.settings.maxConnections, n ≤ total →
      ∃ s', Grows k s₀ s' ∧ s'.settings = s.settings ∧ s'.Queue n 0 total := by
  intro n
  induction n with
  | zero => exact fun _ _ => ⟨s, hgrows, rfl, h⟩
  | succ n ih =>
    intro hroom htotal
    obtain ⟨m, hgrows', hsettings, hqueue⟩ :=
      ih (Nat.le_of_succ_le hroom) (Nat.le_of_succ_le htotal)
    obtain ⟨m', hgrows₁, hsettings₁, hqueue₁⟩ :=
      hqueue.exists_accepted hgrows' (hsettings ▸ hroom) 1 (Nat.le_add_left _ _) htotal
    obtain ⟨s', hgrows₂, hsettings₂, hqueue₂⟩ := hqueue₁.exists_begun hgrows₁
    exact ⟨s', hgrows₂, hsettings₂.trans (hsettings₁.trans hsettings), hqueue₂⟩

/-- Any number of clients can wait at the listener before the loop hears of the first one. -/
theorem exists_queue (settings : ServerSettings) (registry : Registry) (k total : Nat) :
    ∃ s, Grows k { settings, registry } s ∧ s.settings = settings ∧ s.Queue 0 0 total := by
  -- they arrive
  obtain ⟨m, hgrows, hsettings, hidle, hbalanced, harrived⟩ :
      ∃ m, Grows k { settings, registry } m ∧ m.settings = settings ∧ m.listening = .idle ∧
        m.Balanced ∧
        m.connections = List.replicate total (.arrived {} { behaviour := .faithful }) := by
    induction total with
    | zero => exact ⟨_, .refl _ _, rfl, rfl, ⟨rfl, rfl⟩, rfl⟩
    | succ n ih =>
      obtain ⟨m, hgrows, hsettings, hidle, hbalanced, harrived⟩ := ih
      have hstep : m.step (.arrive { behaviour := .faithful }) = some { m with
          connections := m.connections ++ [.arrived {} { behaviour := .faithful }] } := rfl
      refine ⟨_, hgrows.snoc hstep (by simp) (fun _ h => absurd h List.not_mem_nil), hsettings,
        hidle, hbalanced.step hstep, ?_⟩
      simp only [harrived, List.replicate_succ']
  have hactive : m.active = 0 := by
    simp [active, stages, harrived, Connection.stage, Stage.isUnderWay, List.countP_replicate]
  have hunbegun : m.unbegun = 0 := by
    simp [unbegun, harrived, Connection.isAccepted, List.countP_replicate]
  -- and the loop is entered
  have hlisten : m.step .listen = some { m with listening := .entered } := by
    simp only [step, hidle, if_true]
  have hsubscribe : step { m with listening := .entered } .subscribe =
      some { m with listening := .accepting false } := rfl
  have hready := (hgrows.snoc hlisten (by simp) (fun _ h => absurd h List.not_mem_nil)).snoc
    hsubscribe (by simp) (fun _ h => absurd h List.not_mem_nil)
  refine ⟨_, hready, hsettings, rfl, ⟨hbalanced.total, hbalanced.active⟩, hactive, hunbegun, ?_, ?_⟩
  · intro i hle hlt
    omega
  · intro i _ hlt
    refine ⟨{}, { behaviour := .faithful }, ?_⟩
    rw [harrived, List.getElem?_replicate_of_lt hlt]

/-! ## The main statement -/

/-- **By how much the limit on connections may be passed.** Take a server with any limit and any
services, to which no connection is handed over past its loop:

- if the loop never takes another client while more than `k` accepted connections have not begun,
  the number of connections that are counted as under way is never more than the limit and `k`; and
  no more are under way, if the limit and `k` are a number of 64 bits;
- and as many can be under way, whatever `k` is, if the limit lets any connection in at all. Then
  the server counts as many, in 64 bits. -/
theorem active_le_limit (settings : ServerSettings) (registry : Registry) (k : Nat) :
    (∀ actions s, run { settings, registry } actions = some s →
      (∀ sink, .handOver sink ∉ actions) →
      (∀ b ∈ backlogs { settings, registry } actions, b ≤ k) →
      s.stats.connectionsActive.toNat ≤ settings.maxConnections + k ∧
      (settings.maxConnections + k < 0x10000000000000000 →
        s.stages.countP Stage.isUnderWay ≤ settings.maxConnections + k)) ∧
    (1 ≤ settings.maxConnections → ∃ actions s, run { settings, registry } actions = some s ∧
      (∀ sink, .handOver sink ∉ actions) ∧
      (∀ b ∈ backlogs { settings, registry } actions, b ≤ k) ∧
      s.stages.countP Stage.isUnderWay = settings.maxConnections + k ∧
      s.stats.connectionsActive = .ofNat (settings.maxConnections + k)) := by
  refine ⟨?_, ?_⟩
  · intro actions s hrun hown hbacklogs
    have hunderWay : settings.maxConnections + k < 0x10000000000000000 →
        s.active ≤ settings.maxConnections + k := fun hfits =>
      Nat.le_of_add_right_le
        (active_add_unbegun_le ⟨rfl, rfl⟩ hfits (Nat.zero_le _) hrun hown hbacklogs)
    refine ⟨?_, hunderWay⟩
    rcases Nat.lt_or_ge (settings.maxConnections + k) 0x10000000000000000 with hfits | hlarge
    · exact Nat.le_trans (balanced_of_run hrun).connectionsActive_le (hunderWay hfits)
    · exact Nat.le_trans (Nat.le_of_lt s.stats.connectionsActive.toNat_lt) hlarge
  · intro hroom
    obtain ⟨m, hgrows, hsettings, hqueue⟩ :=
      exists_queue settings registry k (settings.maxConnections + k)
    -- all but one that there is room for are under way
    obtain ⟨m₁, hgrows₁, hsettings₁, hqueue₁⟩ :=
      hqueue.exists_one_by_one hgrows (settings.maxConnections - 1) (by rw [hsettings]; omega)
        (by omega)
    obtain ⟨m₂, hgrows₂, -, hqueue₂⟩ :=
      hqueue₁.exists_accepted hgrows₁ (by rw [hsettings₁, hsettings]; omega) (k + 1)
        (Nat.le_refl _) (by omega)
    obtain ⟨s, ⟨actions, hrun, hown, hbacklogs⟩, -, hqueue₃⟩ := hqueue₂.exists_begun hgrows₂
    have hactive : s.active = settings.maxConnections + k := hqueue₃.active.trans (by omega)
    refine ⟨actions, s, hrun, hown, hbacklogs, hactive, ?_⟩
    rw [hqueue₃.balanced.active]
    exact congrArg UInt64.ofNat hactive

/-- The settings that let one connection in. -/
def onlyOne : ServerSettings := { maxConnections := 1 }

/-- Two clients wait at the listener. -/
def twoWaiting : List Action :=
  [.arrive { behaviour := .faithful }, .arrive { behaviour := .faithful }, .listen, .subscribe]

/-- The first client begins before the second one is looked at. -/
def inTurn : List Action := twoWaiting ++ [.accept 0, .serve 0, .accept 1]

/-- Both clients are accepted before the first one begins. -/
def atOnce : List Action := twoWaiting ++ [.accept 0, .accept 1, .serve 0, .serve 1]

theorem active_le_limit_in_turn :
    ∃ s, run { settings := onlyOne } inTurn = some s ∧ s.stats.connectionsActive.toNat ≤ 1 := by
  have hruns : (run { settings := onlyOne } inTurn).isSome = true := by decide
  have hbacklogs : ∀ b ∈ backlogs { settings := onlyOne } inTurn, b ≤ 0 := by decide
  obtain ⟨s, hrun⟩ := Option.isSome_iff_exists.mp hruns
  refine ⟨s, hrun, ((active_le_limit onlyOne {} 0).1 inTurn s hrun ?_ hbacklogs).1⟩
  simp [inTurn, twoWaiting]

/-- **The limit may be passed**: with room for one connection, two of them are under way. -/
theorem limit_passed :
    ∃ s, run { settings := onlyOne } atOnce = some s ∧ (∀ sink, .handOver sink ∉ atOnce) ∧
      s.settings.maxConnections = 1 ∧ s.stats.connectionsActive = 2 := by
  have hruns : (run { settings := onlyOne } atOnce).any (fun s =>
      s.settings.maxConnections = 1 ∧ s.stats.connectionsActive = 2) = true := by decide
  obtain ⟨s, hrun, hs⟩ := (Option.any_eq_true _ _).mp hruns
  obtain ⟨hlimit, hactive⟩ := of_decide_eq_true hs
  exact ⟨s, hrun, by simp [atOnce, twoWaiting], hlimit, hactive⟩

end Server

end WireCall
