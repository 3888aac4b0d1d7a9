import Mathlib.Algebra.BigOperators.Fin
import WireCall.Proofs.Registry
import WireCall.Proofs.Server.Opening
import WireCall.Proofs.Server.Shutdown

/-!
# What has become of the requests of a connection

At every moment the tasks of a connection have come as far as the calls and the responses in its
history say, and the history of a connection that has not come under service is empty
(`Server.Recorded`). This does not depend on what the streams do (`Server.recorded_of_run`).

What is summed up over the calls in a history can be summed up over the requests for which they have
been made (`Serving.Works.sum_events`).
-/

namespace WireCall

open Serving (Event Move Works requests)

/-- A connection keeps its codec. -/
theorem Serving.Move.codec_eq {registry : Registry} {c c' : Serving} {ev : List Event}
    (hmove : Move registry c ev c') : c'.writer.codec = c.writer.codec := by
  cases hmove with
  | @responds t r writer _ hwrite =>
    have hcodec := c.writer.codec_writeEncoded (r.header, r.body)
    rwa [hwrite] at hcodec
  | @breaks t r e writer _ hwrite =>
    have hcodec := c.writer.codec_writeEncoded (r.header, r.body)
    rwa [hwrite] at hcodec
  | _ => rfl

/-- The request that is read has been prepared by the registry. -/
theorem Serving.Move.prepared {registry : Registry} {c c' : Serving} {ev : List Event}
    (hmove : Move registry c ev c') {q : Request × Bytes} (hq : q ∈ requests ev) :
    ∃ codec, q.1.call = registry.prepare codec q.1.header.method q.2 := by
  cases hmove with
  | asks =>
    obtain rfl := List.mem_singleton.mp hq
    exact ⟨_, rfl⟩
  | _ => cases hq

namespace Server

variable {s s₀ s' : Server} {i : Nat} {c : Serving} {a : Action} {log : List Event}
  {actions : List Action}

/-- **How a connection stands by its history**, whatever its stream does. -/
inductive Recorded (s : Server) (i : Nat) (log : List Event) : Prop
  | unserved (hnone : s.serving? i = none) (hlog : log = [])
  | serving {c : Serving} (hc : s.serving? i = some c) (hworks : Works c.writer.codec log c.tasks)
  | served {c : Serving} (hc : s.connections[i]? = some (.served c))
      (hfinished : c.tasks.all Task.isFinished) (hworks : Works c.writer.codec log c.tasks)

/-- Nothing is recorded of a connection before it comes under service. -/
theorem Recorded.eq_nil_of_opening (h : s.Recorded i log) {conn : Connection}
    (hconn : s.connections[i]? = some conn) (hopening : conn.opening?.isSome) : log = [] := by
  cases h with
  | unserved _ hlog => exact hlog
  | serving hc =>
    obtain rfl := Option.some.inj (hconn.symm.trans (serving?_eq_some.mp hc))
    cases hopening
  | served hc =>
    obtain rfl := Option.some.inj (hconn.symm.trans hc)
    cases hopening

/-- Of a connection whose serving has ended nothing is recorded, or all its tasks are finished. -/
theorem Recorded.ended (h : s.Recorded i log) {conn : Connection}
    (hconn : s.connections[i]? = some conn) (hended : conn.stage ≠ .underWay) :
    log = [] ∨ ∃ c, conn = .served c ∧ c.tasks.all Task.isFinished ∧
      Works c.writer.codec log c.tasks := by
  cases h with
  | unserved _ hlog => exact .inl hlog
  | serving hc =>
    obtain rfl := Option.some.inj (hconn.symm.trans (serving?_eq_some.mp hc))
    exact absurd rfl hended
  | served hc hfinished hworks =>
    exact .inr ⟨_, Option.some.inj (hconn.symm.trans hc), hfinished, hworks⟩

/-- A step that is possible only under service. -/
theorem exists_serving (hstep : s.step a = some s')
    (hnone : s.serving? i = none → s.step a = none) : ∃ c, s.serving? i = some c := by
  cases hc : s.serving? i with
  | none =>
    rw [hnone hc] at hstep
    cases hstep
  | some c => exact ⟨c, rfl⟩

/-- A connection that comes under service has no tasks. -/
theorem tasks_of_negotiate (hstep : s.negotiate i = some s') (hc : s'.serving? i = some c) :
    c.tasks = [] := by
  rw [serving?_eq_some] at hc
  rw [negotiate] at hstep
  split at hstep
  · rename_i hconn
    repeat' split at hstep
    all_goals
      obtain rfl := Option.some.inj hstep
      cases (connections_setConnection_self hconn _).symm.trans hc
    rfl
  · cases hstep

theorem Recorded.step (h : s.Recorded i log) (hstep : s.step a = some s') :
    s'.Recorded i (log ++ s.events i a) := by
  cases h with
  | unserved hnone hlog =>
    subst hlog
    rw [events_of_not_served hnone]
    cases hc : s'.serving? i with
    | none => exact .unserved hc rfl
    | some c =>
      obtain ⟨rfl, -⟩ := eq_negotiate_of_serving hnone hstep hc
      refine .serving hc ?_
      rw [tasks_of_negotiate hstep hc]
      exact ⟨rfl, by simp, fun _ _ => ⟨rfl, rfl⟩⟩
  | serving hc hworks =>
    rcases step_serving hc hstep with ⟨c', hc', hmove⟩ | ⟨hserved, -, hfinished, hevents⟩
    · refine .serving hc' ?_
      rw [hmove.codec_eq]
      exact hworks.move rfl hmove
    · rw [hevents, List.append_nil]
      refine .served hserved hfinished ?_
      rw [Writer.close_snd _ |>.1]
      exact hworks
  | served hc hfinished hworks =>
    have hevents : s.events i a = [] := by simp only [events, serving?, hc]
    rw [hevents, List.append_nil]
    exact .served (connections_over rfl hc hstep) hfinished hworks

/-- **Every connection stands by its history**, on a server that had none at the start. -/
theorem recorded_of_run (hempty : s₀.connections = []) (hrun : s₀.run actions = some s) (i : Nat) :
    s.Recorded i (s₀.history i actions) := by
  refine Run.induct (P := fun as s => s.Recorded i (s₀.history i as)) ?_ ?_ actions s hrun
  · exact .unserved (by simp [serving?, hempty]) rfl
  · intro as m a s' hm hrecorded hstep
    rw [history, Run.log_concat hm hstep]
    exact hrecorded.step hstep

/-- **Every request has been prepared** by a registry with the services and the methods that there
were at the start. -/
theorem prepared_of_run (hrun : s₀.run actions = some s) (i : Nat) :
    ∀ q ∈ requests (s₀.history i actions), ∃ r codec, s₀.registry.Alike r ∧
      q.1.call = r.prepare codec q.1.header.method q.2 := by
  refine Run.induct (P := fun as _ => ∀ q ∈ requests (s₀.history i as), ∃ r codec,
    s₀.registry.Alike r ∧ q.1.call = r.prepare codec q.1.header.method q.2) nofun ?_ actions s hrun
  intro as m a s' hm hprepared hstep q hq
  rw [history, Run.log_concat hm hstep, Serving.requests_append, List.mem_append] at hq
  rcases hq with hq | hq
  · exact hprepared q hq
  · cases hc : m.serving? i with
    | none =>
      rw [events_of_not_served hc] at hq
      cases hq
    | some c =>
      rcases step_serving hc hstep with ⟨c', -, hmove⟩ | ⟨-, -, -, hevents⟩
      · obtain ⟨codec, hcall⟩ := hmove.prepared hq
        exact ⟨m.registry, codec, alike_of_run hm, hcall⟩
      · rw [hevents] at hq
        cases hq

end Server

/-! ## Sums -/

/-- A count is a sum. -/
theorem countP_eq_sum {α : Type} (p : α → Bool) (l : List α) :
    l.countP p = ∑ t : Fin l.length, (p l[t]).toNat := by
  refine Eq.trans ?_ (Fin.sum_univ_fun_getElem l fun a => (p a).toNat).symm
  induction l with
  | nil => rfl
  | cons a l ih =>
    rw [List.countP_cons, ih, List.map_cons, List.sum_cons, Nat.add_comm]
    cases p a <;> rfl

/-- Sums that differ in one place. -/
theorem sum_range_add {f f' : Nat → Nat} {j N : Nat} (hj : j < N) (h : ∀ i, i ≠ j → f' i = f i) :
    ∑ i ∈ Finset.range N, f' i + f j = ∑ i ∈ Finset.range N, f i + f' j := by
  have hmem := Finset.mem_range.mpr hj
  have hrest : ∑ i ∈ (Finset.range N).erase j, f' i = ∑ i ∈ (Finset.range N).erase j, f i :=
    Finset.sum_congr rfl fun i hi => h i (Finset.ne_of_mem_erase hi)
  rw [← Finset.add_sum_erase _ f hmem, ← Finset.add_sum_erase _ f' hmem, hrest]
  omega

namespace Serving

variable {codec : Codec} {log : List Event} {tasks : List Task}

/-- What an event is worth, if it is a call. -/
def Event.ofCall (f : Prepared × Nat → Nat) : Event → Nat
  | .invoked _ p memory => f (p, memory)
  | _ => 0

/-- **What is summed up over the calls** is summed up over the tasks for which they are made. -/
theorem sum_ofCall (f : Prepared × Nat → Nat) {n : Nat}
    (hlater : ∀ t, n ≤ t → invocations log t = []) :
    (log.map (Event.ofCall f)).sum = ∑ t : Fin n, ((invocations log t).map f).sum := by
  induction log with
  | nil => simp [invocations]
  | cons e log ih =>
    have hcons : ∀ t, invocations (e :: log) t = invocations [e] t ++ invocations log t :=
      invocations_append [e] log
    have hone : ∀ t, n ≤ t → invocations [e] t = [] ∧ invocations log t = [] := by
      intro t ht
      rw [← List.append_eq_nil_iff, ← hcons]
      exact hlater t ht
    have hsum : Event.ofCall f e = ∑ t : Fin n, ((invocations [e] t).map f).sum := by
      cases e with
      | invoked u p memory =>
        have hu : u < n := by
          by_contra hu
          have hnone := (hone u (Nat.le_of_not_lt hu)).1
          rw [invocations_invoked_self] at hnone
          cases hnone
        rw [Finset.sum_eq_single ⟨u, hu⟩]
        · rw [invocations_invoked_self]
          exact (Nat.add_zero _).symm
        · intro t _ ht
          rw [invocations_invoked_ne (fun h => ht (Fin.ext h))]
          rfl
        · exact fun h => absurd (Finset.mem_univ _) h
      | _ => exact (Finset.sum_eq_zero fun _ _ => rfl).symm
    rw [List.map_cons, List.sum_cons, ih fun t ht => (hone t ht).2, hsum,
      ← Finset.sum_add_distrib]
    refine Finset.sum_congr rfl fun t _ => ?_
    rw [hcons, List.map_append, List.sum_append]

/-- What an event is worth, if it is a request. -/
def Event.ofRequest (g : Request → Nat) : Event → Nat
  | .asked r _ => g r
  | _ => 0

theorem sum_ofRequest (g : Request → Nat) (log : List Event) :
    (log.map (Event.ofRequest g)).sum = ((requests log).map fun q => g q.1).sum := by
  induction log with
  | nil => rfl
  | cons e log ih =>
    have hcons : requests (e :: log) = requests [e] ++ requests log := requests_append [e] log
    rw [List.map_cons, List.sum_cons, ih, hcons, List.map_append, List.sum_append]
    cases e <;> simp [requests, Event.ofRequest]

/-- **What is summed up over the requests and the calls** is summed up over the requests, each with
the calls made for it. -/
theorem Works.sum_events (h : Works codec log tasks) (g : Request → Nat)
    (f : Prepared × Nat → Nat) :
    (log.map fun e => e.ofRequest g + e.ofCall f).sum =
      ∑ t : Fin (requests log).length,
        (g (requests log)[t].1 + ((invocations log t).map f).sum) := by
  have hlater : ∀ t, (requests log).length ≤ t → invocations log t = [] := by
    intro t ht
    rw [← h.length] at ht
    exact (h.later t ht).1
  rw [List.sum_map_add, sum_ofRequest, sum_ofCall f hlater, Finset.sum_add_distrib]
  exact congrArg (· + _) (Fin.sum_univ_fun_getElem (requests log) fun q => g q.1).symm

end Serving

end WireCall
