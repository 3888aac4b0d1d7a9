import WireCall.Proofs.Server.Trace

/-!
# What has happened on a connection

The events that the steps of a run leave on a connection are its *history* (`Server.history`). A
connection that is under service at the start of a run stands at its end as its history says, or it
has been closed with nothing left to answer (`Server.traced_of_run`).
-/

namespace WireCall

namespace Server

open Serving (Event Move Traced)

variable {s s₀ s' : Server} {i : Nat}

/-- **The history of a connection** in a run. -/
def history (i : Nat) (s : Server) (actions : List Action) : List Event :=
  Run.log step (events i) s actions

/-- What a connection notes of a step that is about it. -/
theorem mem_ownEvents {c : Serving} {a : Action} {e : Event} (h : e ∈ s.ownEvents c a) :
    e ≠ .signalled ∧ ∀ ending, e = .ended ending → ∃ j, a = .hangUp j ending := by
  unfold ownEvents at h
  split at h
  · split at h <;> simp at h
    subst h
    exact ⟨nofun, nofun⟩
  · obtain rfl := List.mem_singleton.mp h
    exact ⟨nofun, fun _ hending => ⟨_, by rw [Event.ended.inj hending]⟩⟩
  · split at h
    · split at h <;> simp at h
      subst h
      exact ⟨nofun, nofun⟩
    · cases h
  · split at h <;> simp at h
    subst h
    exact ⟨nofun, nofun⟩
  · split at h <;> simp at h
    subst h
    exact ⟨nofun, nofun⟩
  · cases h

/-- A connection notes the steps that are about it, and a shutdown. -/
theorem mem_events {a : Action} {e : Event} (h : e ∈ s.events i a) :
    (a = .shutdown ∧ e = .signalled) ∨
      a.connection? = some i ∧ ∃ c, s.serving? i = some c ∧ e ∈ s.ownEvents c a := by
  simp only [events] at h
  split at h
  · cases h
  · rename_i c hc
    split at h
    · exact .inl ⟨rfl, List.mem_singleton.mp h⟩
    · split at h
      · rename_i ha
        exact .inr ⟨ha, c, hc, h⟩
      · cases h

/-- A shutdown is the only step that a connection is told of. -/
theorem eq_shutdown_of_signalled {a : Action} (h : .signalled ∈ s.events i a) : a = .shutdown := by
  rcases mem_events h with ⟨ha, -⟩ | ⟨-, c, -, hown⟩
  · exact ha
  · exact absurd rfl (mem_ownEvents hown).1

theorem eq_hangUp_of_ended {a : Action} {e : Ending} (h : .ended e ∈ s.events i a) :
    a = .hangUp i e := by
  rcases mem_events h with ⟨-, he⟩ | ⟨ha, c, -, hown⟩
  · cases he
  · obtain ⟨j, rfl⟩ := (mem_ownEvents hown).2 e rfl
    cases ha
    rfl

theorem not_signalled {actions : List Action} (h : ∀ a ∈ actions, a ≠ .shutdown) :
    .signalled ∉ s.history i actions := by
  intro hmem
  obtain ⟨m, a, ha, hsignalled⟩ := Run.mem_log hmem
  exact h a ha (eq_shutdown_of_signalled hsignalled)

/-! ## Runs -/

/-- **A connection that has been under service**: it still is and `P` holds of it, or it has been
served and `Q` holds of what is left of it. -/
inductive Lasts (P Q : Serving → Prop) (s : Server) (i : Nat) : Prop
  | serving {c : Serving} (hc : s.serving? i = some c) (h : P c)
  | served {c : Serving} (hc : s.connections[i]? = some (.served c)) (h : Q c)

/-- What the moves of a connection and its closing keep, every step keeps. -/
theorem Lasts.step {P P' Q Q' : Serving → Prop} {a : Action} (h : Lasts P Q s i)
    (hstep : s.step a = some s')
    (hmove : ∀ c c', s.serving? i = some c → P c → Move s.registry c (s.events i a) c' → P' c')
    (hclose : ∀ c, s.serving? i = some c → P c → c.reading = false →
      c.tasks.all Task.isFinished → s.events i a = [] →
        Q' { c with writer := c.writer.close.2 })
    (hserved : ∀ c, s.serving? i = none → Q c → Q' c) : Lasts P' Q' s' i := by
  cases h with
  | serving hc h =>
    rcases step_serving hc hstep with ⟨c', hc', hmoves⟩ | ⟨hc', hstopped, hfinished, hevents⟩
    · exact .serving hc' (hmove _ c' hc h hmoves)
    · exact .served hc' (hclose _ hc h hstopped hfinished hevents)
  | served hc h =>
    have hserving : s.serving? i = none := by simp only [serving?, hc]
    exact .served (connections_over rfl hc hstep) (hserved _ hserving h)

/-- How a connection stands that has been under service: it still is, or it has been closed with
nothing left to answer. -/
inductive Stands (codec : Codec) (start before : Bytes) (log : List Event) (s : Server) (i : Nat) :
    Prop
  | serving {c : Serving} (hc : s.serving? i = some c) (htraced : Traced codec start before log c)
  | served {c : Serving}
      (hc : s.connections[i]? = some (.served { c with writer := c.writer.close.2 }))
      (hstopped : c.reading = false) (hfinished : c.tasks.all Task.isFinished)
      (htraced : Traced codec start before log c)

variable {codec : Codec} {start before : Bytes} {log : List Event}

theorem Stands.step (h : Stands codec start before log s i) {a : Action}
    (hstep : s.step a = some s') :
    Stands codec start before (log ++ s.events i a) s' i := by
  cases h with
  | serving hc htraced =>
    rcases step_serving hc hstep with ⟨c', hc', hmove⟩ | ⟨hserved, hstopped, hfinished, hevents⟩
    · exact .serving hc' (htraced.move hmove)
    · rw [hevents, List.append_nil]
      exact .served hserved hstopped hfinished htraced
  | served hc hstopped hfinished htraced =>
    have hevents : s.events i a = [] := by simp only [events, serving?, hc]
    rw [hevents, List.append_nil]
    exact .served (connections_over rfl hc hstep) hstopped hfinished htraced

/-- **A connection stands as its history says**, whatever the server does. -/
theorem traced_of_run {c : Serving} (hc : s₀.serving? i = some c)
    (htraced : Traced codec start before [] c) {actions : List Action}
    (hrun : s₀.run actions = some s) :
    Stands codec start before (s₀.history i actions) s i := by
  refine Run.induct (P := fun as s => Stands codec start before (s₀.history i as) s i)
    (.serving hc htraced) ?_ actions s hrun
  intro as m a s' hm hstands hstep
  rw [history, Run.log_concat hm hstep]
  exact hstands.step hstep

end Server

end WireCall
