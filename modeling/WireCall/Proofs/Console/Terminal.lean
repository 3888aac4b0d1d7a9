import Mathlib.Order.Monotone.Basic
import WireCall.Console.Terminal
import WireCall.Proofs.Client.Completion
import WireCall.Proofs.Console.Bench
import WireCall.Proofs.Network.Lines

/-!
# The calls of a terminal

Everything that a terminal does with a client of its network lets the client go on: the schedules of
the network and of its parts choose among their steps, and what a call has come to stays so
(`Network.GoesOn`). So a terminal settles its calls (`Console.Terminal.settles`), and what is known
of sessions in general holds of it. A bench makes a call of its own for each number
(`Console.Terminal.strictMono_callFor`).
-/

namespace WireCall

/-! ## The client -/

namespace Client

variable {c c' : Client}

namespace Later

theorem attempt (c : Client) (a : Action) : Later c (c.attempt a) := by
  unfold Client.attempt
  cases hstep : c.step a with
  | none => exact refl c
  | some c' => exact step hstep

theorem attemptAll (c : Client) (actions : List Action) : Later c (c.attemptAll actions) := by
  induction actions generalizing c with
  | nil => exact refl c
  | cons a actions ih => exact (attempt c a).trans (ih _)

theorem readAll (fuel : Nat) (c : Client) : Later c (readAll fuel c) := by
  induction fuel generalizing c with
  | zero => exact refl c
  | succ fuel ih =>
    simp only [Client.readAll]
    split
    · exact (attempt c .read).trans (ih _)
    · exact attempt c .read

theorem settle (c : Client) : Later c c.settle := (readAll _ c).trans (attemptAll _ _)

theorem go (c : Client) (method : String) (argument : Datum) : Later c (c.go method argument) :=
  (attemptAll c _).trans (settle _)

/-- **What a call has come to stays so.** -/
theorem result? (h : Later c c') {n : Nat} {r : Except CallError Bytes}
    (hr : c.result? n = some r) : c'.result? n = some r := by
  obtain ⟨p, hp, rfl⟩ := Option.map_eq_some_iff.mp hr
  obtain ⟨more, hmore⟩ := h.completions
  rw [Client.result?, ← hmore, List.find?_append, hp]
  rfl

end Later

/-- **A call that is issued is the next one**, and of the method that is asked for. -/
theorem calls_go (c : Client) (method : String) (argument : Datum) :
    ∃ call, (c.go method argument).calls[c.calls.length]? = some call ∧ call.method = method := by
  have hissued : ∃ call, (c.issue method argument).calls[c.calls.length]? = some call ∧
      call.method = method := by
    rw [issue]
    split
    · exact ⟨_, List.getElem?_concat_length, rfl⟩
    · exact ⟨_, List.getElem?_concat_length, rfl⟩
  obtain ⟨call, hcall, hmethod⟩ := hissued
  have hlater : (c.issue method argument).Later (c.go method argument) :=
    (Later.attemptAll _ _).trans (.settle _)
  obtain ⟨call', hcall', hsame, -⟩ := hlater.calls hcall
  exact ⟨call', hcall', hsame.trans hmethod⟩

/-- It is known what a call has come to that is named first. -/
theorem exists_result_of_finished {calls : List Nat} {k : Fin calls.length}
    (h : c.finished? calls = some k) : ∃ r, c.result? (calls.get k) = some r := by
  obtain ⟨p, hp, hk⟩ := List.exists_of_findSome?_eq_some h
  have hcall : calls.get k = p.1 := (List.finIdxOf?_eq_some_iff.mp hk).1
  have hfound : (c.completions.find? fun q => q.1 = calls.get k).isSome := by
    rw [List.find?_isSome]
    exact ⟨p, hp, decide_eq_true hcall.symm⟩
  obtain ⟨q, hq⟩ := Option.isSome_iff_exists.mp hfound
  exact ⟨q.2, congrArg (Option.map Prod.snd) hq⟩

end Client

/-! ## The network -/

namespace Network

variable {net net' : Network} {k : Nat}

/-- **The client of a line goes on**, if there is one. -/
def GoesOn (k : Nat) (net net' : Network) : Prop :=
  ∀ c, net.client? k = some c → ∃ c', net'.client? k = some c' ∧ c.Later c'

namespace GoesOn

theorem refl (k : Nat) (net : Network) : GoesOn k net net := fun c hc => ⟨c, hc, .refl c⟩

theorem trans {net'' : Network} (h : GoesOn k net net') (h' : GoesOn k net' net'') :
    GoesOn k net net'' := by
  intro c hc
  obtain ⟨c', hc', hlater⟩ := h c hc
  obtain ⟨c'', hc'', hlater'⟩ := h' c' hc'
  exact ⟨c'', hc'', hlater.trans hlater'⟩

/-- Nothing happens to the clients. -/
theorem of_lines (h : net'.lines = net.lines) : GoesOn k net net' := by
  intro c hc
  refine ⟨c, ?_, .refl c⟩
  rw [client?, h]
  exact hc

theorem of_set {j : Nat} {l l' : Line} (hl : net.lines[j]? = some l)
    (hlines : net'.lines = net.lines.set j l') (hlater : l.client.Later l'.client) :
    GoesOn k net net' := by
  intro c hc
  obtain ⟨x, hx, rfl⟩ := Option.map_eq_some_iff.mp hc
  rw [client?, hlines]
  by_cases hj : j = k
  · subst hj
    obtain rfl := Option.some.inj (hl.symm.trans hx)
    rw [List.getElem?_set_self (List.getElem?_eq_some_iff.mp hl).1]
    exact ⟨_, rfl, hlater⟩
  · rw [List.getElem?_set_ne hj, hx]
    exact ⟨_, rfl, .refl _⟩

theorem step {a : Action} (hstep : net.step a = some net') : GoesOn k net net' := by
  cases a with
  | dial d =>
    obtain ⟨client, sink, -, rfl⟩ := step_dial hstep
    intro c hc
    obtain ⟨l, hl, rfl⟩ := Option.map_eq_some_iff.mp hc
    refine ⟨l.client, ?_, .refl _⟩
    rw [client?, List.getElem?_append_left (List.getElem?_eq_some_iff.mp hl).1, hl]
    rfl
  | client j a =>
    obtain ⟨l, c, hl, -, hc, rfl⟩ := step_client hstep
    exact of_set hl rfl (.step hc)
  | server a =>
    obtain ⟨-, s, -, rfl⟩ := step_server hstep
    exact of_lines rfl
  | carryUp j most =>
    obtain ⟨l, s, hl, -, rfl⟩ := step_carryUp hstep
    exact of_set hl rfl (.refl _)
  | carryDown j most =>
    obtain ⟨l, hl, rfl⟩ := step_carryDown hstep
    exact of_set hl rfl (.step (a := .receive _) rfl)
  | endUp j =>
    obtain ⟨l, s, -, -, -, rfl⟩ := step_endUp hstep
    exact of_lines rfl
  | endDown j =>
    obtain ⟨l, c, hl, -, hc, rfl⟩ := step_endDown hstep
    exact of_set hl rfl (.step hc)

theorem attemptAll (net : Network) (actions : List Action) :
    GoesOn k net (net.attemptAll actions) := by
  induction actions generalizing net with
  | nil => exact refl k net
  | cons a actions ih =>
    refine trans ?_ (ih _)
    unfold attempt
    cases hstep : net.step a with
    | none => exact refl k net
    | some net' => exact step hstep

theorem onClient (net : Network) (j : Nat) {f : Client → Client}
    (hf : ∀ c : Client, c.Later (f c)) : GoesOn k net (net.onClient j f) := by
  intro c hc
  obtain ⟨l, hl, rfl⟩ := Option.map_eq_some_iff.mp hc
  simp only [client?, Network.onClient, List.getElem?_modify, hl]
  by_cases hj : j = k
  · exact ⟨_, by simp [hj], hf l.client⟩
  · exact ⟨_, by simp [hj], .refl _⟩

theorem deliverUp (net : Network) (j : Nat) : GoesOn k net (net.deliverUp j) := by
  unfold Network.deliverUp
  split
  · exact attemptAll net _
  · exact refl k net

theorem deliverDown (net : Network) (j : Nat) : GoesOn k net (net.deliverDown j) := by
  unfold Network.deliverDown
  split
  · exact (attemptAll net _).trans (onClient _ j Client.Later.settle)
  · exact refl k net

/-- What goes on with each of some numbers goes on with all of them. -/
theorem foldl {f : Network → Nat → Network} (hf : ∀ net j, GoesOn k net (f net j)) (net : Network)
    (numbers : List Nat) : GoesOn k net (numbers.foldl f net) := by
  induction numbers generalizing net with
  | nil => exact refl k net
  | cons j numbers ih => exact (hf net j).trans (ih _)

theorem onServer (net : Network) (f : Server → Server) : GoesOn k net (net.onServer f) :=
  of_lines rfl

theorem exchange (net : Network) : GoesOn k net net.exchange :=
  ((foldl deliverUp net _).trans (onServer _ _)).trans (foldl deliverDown _ _)

theorem settle (net : Network) : GoesOn k net net.settle := (exchange net).trans (exchange _)

theorem await (net : Network) (goal : Network → Bool) : GoesOn k net (net.await goal) := by
  unfold Network.await
  generalize net.server.dueTimes.length + 1 = fuel
  induction fuel generalizing net with
  | zero => exact refl k net
  | succ fuel ih =>
    rw [passUntil]
    split
    · exact refl k net
    · split
      · rename_i later hlater
        obtain ⟨due, -, rfl⟩ := Option.map_eq_some_iff.mp hlater
        exact ((onServer net _).trans (settle _)).trans (ih _)
      · exact refl k net

theorem issue (net : Network) (j : Nat) (method : String) (argument : Datum) :
    GoesOn k net (net.issue j method argument).2 :=
  (onClient net j fun c => .go c method argument).trans (settle _)

/-- **What a call has come to stays so.** -/
theorem result? (h : GoesOn k net net') {n : Nat} {r : Except CallError Bytes}
    (hr : net.result? k n = some r) : net'.result? k n = some r := by
  obtain ⟨c, hc, hresult⟩ := Option.bind_eq_some_iff.mp hr
  obtain ⟨c', hc', hlater⟩ := h c hc
  exact Option.bind_eq_some_iff.mpr ⟨c', hc', hlater.result? hresult⟩

end GoesOn

/-- A call that is issued on a client is its next one. -/
theorem issue_next {c : Client} (hc : net.client? k = some c) (method : String)
    (argument : Datum) :
    (net.issue k method argument).1 = c.calls.length ∧
      ∃ c', (net.issue k method argument).2.client? k = some c' ∧
        ∃ call, c'.calls[c.calls.length]? = some call ∧ call.method = method := by
  refine ⟨congrArg (fun o => (o.map fun c => c.calls.length).getD 0) hc, ?_⟩
  have hissued : (net.onClient k (·.go method argument)).client? k =
      some (c.go method argument) := by
    obtain ⟨l, hl, rfl⟩ := Option.map_eq_some_iff.mp hc
    simp [client?, onClient, hl]
  obtain ⟨c', hc', hlater⟩ := GoesOn.settle _ _ hissued
  obtain ⟨call, hcall, hmethod⟩ := c.calls_go method argument
  obtain ⟨call', hcall', hsame, -⟩ := hlater.calls hcall
  exact ⟨c', hc', call', hcall', hsame.trans hmethod⟩

/-- Nothing is waited for that is the case already. -/
theorem await_of_goal {goal : Network → Bool} (h : goal net = true) : net.await goal = net := by
  rw [await, passUntil, if_pos h]

end Network

namespace Console.Terminal

variable {k : Nat}

/-- **A terminal settles its calls.** -/
theorem settles (k : Nat) :
    (session k).Settles fun t call => t.network.result? k call where
  keeps_go := fun method argument t call r h =>
    (Network.GoesOn.issue t.network k method argument).result? h
  keeps_done := fun call t call' r h => (Network.GoesOn.await t.network _).result? h
  keeps_first := fun calls t call r h => (Network.GoesOn.await t.network _).result? h
  done := by
    intro t call r h
    have hstill : t.network.awaitCall k call = t.network :=
      Network.await_of_goal (Option.isSome_of_eq_some h)
    show ((t.network.awaitCall k call).result? k call).getD _ = r
    rw [hstill, h]
    rfl
  first := by
    intro t calls place h
    obtain ⟨c, hc, hfinished⟩ := Option.bind_eq_some_iff.mp h
    obtain ⟨r, hr⟩ := Client.exists_result_of_finished hfinished
    exact ⟨r, Option.bind_eq_some_iff.mpr ⟨c, hc, hr⟩⟩

/-- The call for a number is the next one behind those that have been issued before. -/
theorem callFor_eq {t : Terminal} (hline : (t.network.client? k).isSome) (i : Nat) :
    ∃ c, (Bench.before (session k) t i).network.client? k = some c ∧
      Bench.callFor (session k) t i = c.calls.length := by
  have hclient : ∀ i, ((Bench.before (session k) t i).network.client? k).isSome := by
    intro i
    induction i with
    | zero => exact hline
    | succ i ih =>
      obtain ⟨c, hc⟩ := Option.isSome_iff_exists.mp ih
      obtain ⟨-, c', hc', -⟩ := Network.issue_next hc Bench.method (Bench.argument i)
      exact Option.isSome_of_eq_some hc'
  obtain ⟨c, hc⟩ := Option.isSome_iff_exists.mp (hclient i)
  exact ⟨c, hc, (Network.issue_next hc Bench.method (Bench.argument i)).1⟩

/-- **A bench on a terminal makes one call for each number**: later numbers have later calls. -/
theorem strictMono_callFor {t : Terminal} (hline : (t.network.client? k).isSome) :
    StrictMono (Bench.callFor (session k) t) := by
  refine strictMono_nat_of_lt_succ fun i => ?_
  obtain ⟨c, hc, hcall⟩ := callFor_eq hline i
  obtain ⟨c', hc', hcall'⟩ := callFor_eq hline (i + 1)
  obtain ⟨-, c'', hc'', call, hnext, -⟩ :=
    Network.issue_next hc Bench.method (Bench.argument i)
  obtain rfl := Option.some.inj (hc'.symm.trans hc'')
  rw [hcall, hcall']
  exact (List.getElem?_eq_some_iff.mp hnext).1

end Console.Terminal

end WireCall
