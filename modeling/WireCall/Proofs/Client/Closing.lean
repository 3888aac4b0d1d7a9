import WireCall.Proofs.Client.Completion
import WireCall.Proofs.Client.Settling

/-!
# What becomes of the calls that are pending when the client is closed

A close that is granted only asks the loop to end. Until the loop notices, it goes on reading, and a
call with the right to write goes on writing; the loop may also have stopped already, without having
told anyone. So what becomes of a pending call is decided by the first incident that has a verdict
on its number (`Client.decisive`), and there are *faults* among the incidents
(`Client.Incident.isFault`): the loop ends because the stream has failed or is over, or a request
cannot be written.

The loop moves in few ways (`Client.Looping`). Each pending call is completed as the close promises
(`Client.Promised`) if and only if its decisive incident is no fault
(`Client.closed_calls_settled`). A peer that hangs up at the wrong moment is enough for a fault
(`Client.closed_call_lost`).
-/

namespace WireCall

namespace Client

variable {c c' : Client} {is : List Incident} {seq : UInt64} {n : Nat}

theorem incidents_concat {actions : List Action} {a : Action} (hrun : c.run actions = some c')
    {c'' : Client} (hstep : c'.step a = some c'') :
    c.incidents (actions ++ [a]) = c.incidents actions ++ c'.incident a :=
  Run.log_concat hrun hstep

/-! ## How the loop moves -/

/-- **How a step moves the loop**, by its action and its incidents. No step takes a close back. -/
inductive Looping (c c' : Client) : Action → List Incident → Prop
  /-- the loop stays where it is -/
  | stays {a : Action} {is : List Incident} (hnot : a ≠ .noticeClose)
      (hclosing : c.closing = true → c'.closing = true) (hloop : c'.receiving = c.receiving)
      (hasked : c.closeRequested = true → c'.closeRequested = true)
      (htold : ∀ reason, .tornDown reason ∉ is) : Looping c c' a is
  /-- the loop stops because the stream has failed or is over -/
  | fails {e : WireError} (hclosing : c'.closing = c.closing) (hreading : c.receiving = .reading)
      (hloop : c'.receiving = .ending (.wire e)) : Looping c c' .read []
  /-- the loop stops because it has been asked to -/
  | notices (hclosing : c'.closing = c.closing) (hreading : c.receiving = .reading)
      (hloop : c'.receiving = .ending .shutdown) : Looping c c' .noticeClose []
  /-- the loop tells the pending calls why it has stopped -/
  | ends {reason : CallError} (hclosing : c'.closing = c.closing)
      (hending : c.receiving = .ending reason) (hloop : c'.receiving = .ended)
      (hlost : c'.lost = true) : Looping c c' .terminate [.tornDown reason]

/-- **Every step moves the loop** in one of these ways. -/
theorem looping_of_step {a : Action} (hstep : c.step a = some c') :
    Looping c c' a (c.incident a) := by
  have untold : a ≠ .terminate → ∀ reason, .tornDown reason ∉ c.incident a :=
    fun hnot _ htold => hnot (eq_terminate_of_tornDown htold)
  cases move_of_step hstep with
  | fails hreading hread =>
    simp only [incident, hread]
    exact .fails rfl hreading rfl
  | notices hreading => exact .notices rfl hreading rfl
  | tells hending =>
    simp only [incident, hending]
    exact .ends rfl hending rfl rfl
  | @breaks _ _ call writer e =>
    obtain ⟨failed, habort⟩ := exists_abort { c with writer, holder := none } call.seq e
    rw [habort]
    exact .stays (by simp) id rfl (fun _ => rfl) (untold (by simp))
  | grants | abandons =>
    exact .stays (by simp) (fun _ => rfl) rfl (fun _ => rfl) (untold (by simp))
  | _ => exact .stays (by simp) id rfl id (untold (by simp))

/-- A close stays granted. -/
theorem Looping.closing {a : Action} (h : Looping c c' a is) (hclosing : c.closing = true) :
    c'.closing = true := by
  cases h with
  | stays _ hkept => exact hkept hclosing
  | fails hsame | notices hsame | ends hsame => exact hsame.trans hclosing

/-- A loop that has ended stays so. -/
theorem Looping.ended {a : Action} (h : Looping c c' a is) (hended : c.receiving = .ended) :
    c'.receiving = .ended ∧ ∀ reason, .tornDown reason ∉ is := by
  cases h with
  | stays _ _ hloop _ htold => exact ⟨hloop.trans hended, htold⟩
  | fails _ hreading | notices _ hreading =>
    rw [hended] at hreading
    cases hreading
  | ends _ hending =>
    rw [hended] at hending
    cases hending

/-- **The loop has ended in a run just if it has told the pending calls.** -/
theorem ended_iff_tornDown (hnot : c.receiving ≠ .ended) {actions : List Action}
    (hrun : c.run actions = some c') :
    c'.receiving = .ended ↔ ∃ reason, .tornDown reason ∈ c.incidents actions := by
  refine Run.induct (P := fun as c' =>
    c'.receiving = .ended ↔ ∃ reason, .tornDown reason ∈ c.incidents as) ?_ ?_ actions c' hrun
  · rw [incidents, Run.log_nil]
    simpa using hnot
  · intro as m a c' hm ih hstep
    have hlooping := looping_of_step hstep
    rw [incidents_concat hm hstep]
    simp only [List.mem_append, exists_or]
    by_cases hended : m.receiving = .ended
    · obtain ⟨hended', -⟩ := hlooping.ended hended
      exact iff_of_true hended' (.inl (ih.mp hended))
    · have hbefore : ¬ ∃ reason, .tornDown reason ∈ c.incidents as := fun h => hended (ih.mpr h)
      rw [or_iff_right hbefore]
      generalize m.incident a = is at hlooping
      cases hlooping with
      | stays _ _ hloop _ htold =>
        rw [hloop]
        exact iff_of_false hended (not_exists.mpr htold)
      | fails _ _ hloop | notices _ _ hloop => simp [hloop]
      | @ends reason _ _ hloop => exact iff_of_true hloop ⟨reason, List.mem_singleton_self _⟩

/-- **A loop that has stopped ends for the reason for which it has stopped**, and for no other. -/
theorem reason_of_stopped {why : CallError} (hstopped : c.receiving = .ending why)
    {actions : List Action} (hrun : c.run actions = some c') :
    (c'.receiving = .ending why ∨ c'.receiving = .ended) ∧
      ∀ reason, .tornDown reason ∈ c.incidents actions → reason = why := by
  refine Run.induct (P := fun as c' =>
    (c'.receiving = .ending why ∨ c'.receiving = .ended) ∧
      ∀ reason, .tornDown reason ∈ c.incidents as → reason = why) ?_ ?_ actions c' hrun
  · exact ⟨.inl hstopped, fun _ h => absurd h List.not_mem_nil⟩
  · rintro as m a c' hm ⟨hloops, hold⟩ hstep
    have hlooping := looping_of_step hstep
    rw [incidents_concat hm hstep]
    simp only [List.mem_append]
    suffices hnew : (c'.receiving = .ending why ∨ c'.receiving = .ended) ∧
        ∀ reason, .tornDown reason ∈ m.incident a → reason = why from
      ⟨hnew.1, fun reason h => h.elim (hold reason) (hnew.2 reason)⟩
    generalize m.incident a = is at hlooping
    cases hlooping with
    | stays _ _ hloop _ htold => exact ⟨hloop ▸ hloops, fun reason h => absurd h (htold reason)⟩
    | fails _ hreading | notices _ hreading => simp [hreading] at hloops
    | ends _ hending hloop =>
      refine ⟨.inr hloop, ?_⟩
      intro reason h
      obtain rfl := Incident.tornDown.inj (List.mem_singleton.mp h)
      simpa [hending] using hloops

/-- **Once the loop has noticed that it is to end, that is why it ends**, at whatever moment it has
noticed. -/
theorem shutdown_of_mem_noticeClose (hnot : c.receiving ≠ .ended) {actions : List Action}
    (hrun : c.run actions = some c') (hnoticed : .noticeClose ∈ actions) {reason : CallError}
    (hmem : .tornDown reason ∈ c.incidents actions) : reason = .shutdown := by
  obtain ⟨before, after, rfl⟩ := List.append_of_mem hnoticed
  obtain ⟨m, hbefore, hafter⟩ := Run.append_eq_some.mp hrun
  obtain ⟨m', hstep, hafter⟩ := Option.bind_eq_some_iff.mp hafter
  rw [incidents, Run.log_append hbefore, List.mem_append, Run.log, hstep] at hmem
  have hlooping := looping_of_step hstep
  generalize hincident : m.incident .noticeClose = is at hlooping
  cases hlooping with
  | stays hnot => exact absurd rfl hnot
  | notices _ hreading hloop =>
    rcases hmem with hmem | hmem
    · -- a loop that is still reading has not told anyone
      have hended := (ended_iff_tornDown hnot hbefore).mpr ⟨reason, hmem⟩
      rw [hreading] at hended
      cases hended
    · rw [hincident] at hmem
      exact (reason_of_stopped hloop hafter).2 reason hmem

/-- A client whose loop has ended is lost. -/
theorem lost_of_ended {o : Options} {source : Source} {sink sink' : Sink} {c₀ : Client}
    {actions : List Action} (hconnect : connect o source sink = (.ok c₀, sink'))
    (hrun : c₀.run actions = some c) : c.receiving = .ended → c.lost = true := by
  obtain ⟨r, w, rfl⟩ := exists_of_connect hconnect
  have hinit : ({ reader := r, writer := w } : Client).receiving ≠ .ended := by simp
  refine Run.keeps (P := fun c : Client => c.receiving = .ended → c.lost = true) ?_
    (fun hended => absurd hended hinit) hrun
  intro m a c' ih hstep hended
  have hlooping := looping_of_step hstep
  generalize m.incident a = is at hlooping
  cases hlooping with
  | stays _ _ hloop => exact (Later.step hstep).lost (ih (hloop.symm.trans hended))
  | fails _ _ hloop | notices _ _ hloop =>
    rw [hended] at hloop
    cases hloop
  | ends _ _ _ hlost => exact hlost

/-! ## Clients that are coming to their end -/

/-- **A client that is coming to its end**: it gives out no number any more, and its loop has been
asked to end unless it has stopped already. -/
structure Leaving (c : Client) : Prop where
  closing : c.closing = true
  asked : c.receiving = .reading → c.closeRequested = true

theorem Leaving.step {a : Action} (h : c.Leaving) (hstep : c.step a = some c') : c'.Leaving := by
  have hlooping := looping_of_step hstep
  refine ⟨hlooping.closing h.closing, ?_⟩
  intro hreading
  generalize c.incident a = is at hlooping
  cases hlooping with
  | stays _ _ hloop hasked => exact hasked (h.asked (hloop.symm.trans hreading))
  | fails _ _ hloop | notices _ _ hloop | ends _ _ hloop =>
    rw [hreading] at hloop
    cases hloop

theorem Leaving.run (h : c.Leaving) {actions : List Action} (hrun : c.run actions = some c') :
    c'.Leaving :=
  Run.keeps (P := Leaving) (fun h hstep => h.step hstep) h hrun

/-- A number is given out only by a client that is available. -/
theorem available_of_taken {a : Action} (hmem : .taken seq ∈ c.incident a) :
    c.isAvailable = true := by
  cases a with
  | register n =>
    simp only [incident] at hmem
    split at hmem
    · cases hmem
    · rename_i hopen
      simpa [isAvailable] using hopen
  | write | read | terminate =>
    simp only [incident] at hmem
    repeat' split at hmem
    all_goals simp at hmem
  | _ => cases hmem

/-- Such a client gives out no number. -/
theorem Leaving.not_taken (h : c.Leaving) {actions : List Action}
    (hrun : c.run actions = some c') : .taken seq ∉ c.incidents actions := by
  refine Run.induct (P := fun as _ => .taken seq ∉ c.incidents as) List.not_mem_nil ?_
    actions c' hrun
  intro as m a c' hm hnone hstep
  rw [incidents_concat hm hstep, List.mem_append]
  rintro (hmem | hmem)
  · exact hnone hmem
  · have havailable := available_of_taken hmem
    simp [isAvailable, (h.run hm).closing] at havailable

/-- A close that is granted. -/
theorem leaving_of_close (havailable : c.isAvailable) (hclose : c.step .close = some c') :
    c'.Leaving ∧ c'.pending = c.pending ∧ c'.receiving = c.receiving := by
  have hopen : c.closing = false ∧ c.lost = false := by simpa [isAvailable] using havailable
  cases move_of_step hclose with
  | declines hover => simp [hopen] at hover
  | grants => exact ⟨⟨rfl, fun _ => rfl⟩, rfl, rfl⟩

/-- A call with the right to write can always use it. -/
theorem exists_write (horderly : c.Orderly) {body : Bytes} (hholder : c.holder = some (n, body)) :
    ∃ c', c.step .write = some c' ∧ c'.holder = none := by
  obtain ⟨call, hcall, -⟩ := horderly.holder hholder
  cases hwrite : c.writer.writeEncoded ⟨call.method, call.seq, ""⟩ body with
  | mk result writer =>
  cases result with
  | ok u => exact ⟨_, (Move.writes hholder hcall hwrite).step, rfl⟩
  | error e =>
    obtain ⟨failed, habort⟩ := exists_abort { c with writer, holder := none } call.seq e
    exact ⟨_, (Move.breaks hholder hcall hwrite).step, habort ▸ rfl⟩

/-- A loop that has stopped can tell the pending calls when no call has the right to write. -/
theorem exists_terminate {reason : CallError} (hending : c.receiving = .ending reason)
    (hidle : c.holder = none) : ∃ c', c.step .terminate = some c' ∧ c'.receiving = .ended :=
  ⟨_, (Move.tells hending hidle).step, rfl⟩

/-- **A loop that has stopped can always tell the pending calls**, after the call with the right to
write has used it. -/
theorem exists_told (horderly : c.Orderly) (hstopped : c.receiving ≠ .reading) :
    ∃ ending c', (∀ a ∈ ending, a = .write ∨ a = .terminate) ∧ c.run ending = some c' ∧
      c'.receiving = .ended := by
  -- the call with the right to write comes first
  obtain ⟨first, d, hfirst, hrun, hidle, hloop⟩ : ∃ first d, (∀ a ∈ first, a = .write) ∧
      c.run first = some d ∧ d.holder = none ∧ d.receiving = c.receiving := by
    cases hholder : c.holder with
    | none => exact ⟨[], c, nofun, rfl, hholder, rfl⟩
    | some p =>
      obtain ⟨d, hwrite, hidle⟩ := exists_write horderly hholder
      refine ⟨[.write], d, fun a ha => List.mem_singleton.mp ha, ?_, hidle, ?_⟩
      · simp [Client.run, hwrite]
      · have hlooping := looping_of_step hwrite
        generalize c.incident .write = is at hlooping
        cases hlooping with
        | stays _ _ hloop => exact hloop
  cases hreceiving : d.receiving with
  | reading => exact absurd (hloop.symm.trans hreceiving) hstopped
  | ended => exact ⟨first, d, fun a ha => .inl (hfirst a ha), hrun, hreceiving⟩
  | ending reason =>
    obtain ⟨c', hstep, hended⟩ := exists_terminate hreceiving hidle
    refine ⟨first ++ [.terminate], c', ?_, Run.concat_eq_some.mpr ⟨d, hrun, hstep⟩, hended⟩
    intro a ha
    exact (List.mem_append.mp ha).imp (hfirst a) List.mem_singleton.mp

/-- **Such a client can always come to its end**: the loop notices that it is to end if it is still
reading, the call with the right to write writes, and the loop tells the pending calls. -/
theorem Leaving.exists_ended (h : c.Leaving) (horderly : c.Orderly) :
    ∃ ending c', (∀ a ∈ ending, a = .write ∨ a = .noticeClose ∨ a = .terminate) ∧
      c.run ending = some c' ∧ c'.receiving = .ended := by
  cases hreceiving : c.receiving with
  | reading =>
    have hnotice := (Move.notices hreceiving (h.asked hreceiving)).step
    obtain ⟨ending, c', hown, hrun, hended⟩ := exists_told (horderly.step hnotice) (by simp)
    refine ⟨.noticeClose :: ending, c', ?_, Run.cons_eq_some.mpr ⟨_, hnotice, hrun⟩, hended⟩
    intro a ha
    rcases List.mem_cons.mp ha with rfl | ha
    · exact .inr (.inl rfl)
    · exact (hown a ha).imp id .inr
  | ended | ending reason =>
    obtain ⟨ending, c', hown, hrun, hended⟩ := exists_told horderly (by simp [hreceiving])
    exact ⟨ending, c', fun a ha => (hown a ha).imp id .inr, hrun, hended⟩

/-! ## What decides -/

/-- Whether an incident is a fault of the connection. -/
def Incident.isFault : Incident → Bool
  | .tornDown .shutdown => false
  | .tornDown _ | .unwritten _ _ => true
  | .heard _ | .taken _ => false

theorem Incident.isFault_tornDown {reason : CallError} :
    (Incident.tornDown reason).isFault = false ↔ reason = .shutdown := by
  cases reason <;> simp [isFault]

/-- **The incident that decides** what becomes of the call under a number. -/
def decisive (seq : UInt64) (is : List Incident) : Option Incident :=
  is.find? fun i => (i.verdict seq).isSome

/-- **How a close promises that a pending call is completed**: by a response under its number that
is read, or as shut down. -/
def Promised (seq : UInt64) (is : List Incident) (r : Except CallError Bytes) : Prop :=
  r = .error .shutdown ∨ ∃ m, .heard m ∈ is ∧ m.1.seq = seq ∧ r = Message.outcome m

theorem findSome?_verdict (seq : UInt64) (is : List Incident) :
    is.findSome? (Incident.verdict seq) = (decisive seq is).bind (Incident.verdict seq) := by
  induction is with
  | nil => rfl
  | cons i is ih =>
    rw [decisive, List.findSome?_cons, List.find?_cons]
    cases hverdict : i.verdict seq with
    | none => exact ih
    | some results => exact hverdict.symm

/-- A response gives its call no error of the connection. -/
theorem outcome_ne (m : Header × Bytes) :
    (∀ e, Message.outcome m ≠ .error (.wire e)) ∧
      ∀ why, Message.outcome m ≠ .error (.connectionClosed why) := by
  simp only [Message.outcome]
  split <;> simp

/-- **A decisive incident** completes the call, and as the close promises just if it is no fault. -/
theorem promised_iff {i : Incident} (hi : decisive seq is = some i) (hnot : .taken seq ∉ is) :
    ∃ r, i.verdict seq = some [r] ∧ (Promised seq is r ↔ i.isFault = false) := by
  have hmem := List.mem_of_find?_eq_some hi
  have hdecides := List.find?_some hi
  -- an error of the connection is not what has been promised
  have broken : ∀ {r : Except CallError Bytes}, r ≠ .error .shutdown →
      (∀ m, r ≠ Message.outcome m) → ¬ Promised seq is r := by
    rintro r hshutdown houtcome (hr | ⟨m, -, -, hr⟩)
    · exact hshutdown hr
    · exact houtcome m hr
  cases i with
  | heard m =>
    have hseq : m.1.seq = seq := by
      simp only [Incident.verdict] at hdecides
      split at hdecides
      · assumption
      · cases hdecides
    exact ⟨_, if_pos hseq, iff_of_true (.inr ⟨m, hmem, hseq, rfl⟩) rfl⟩
  | tornDown reason =>
    refine ⟨_, rfl, ?_⟩
    by_cases hreason : reason = .shutdown
    · subst hreason
      exact iff_of_true (.inl rfl) rfl
    · have hclosed : teardownError reason = .connectionClosed reason.message := by
        cases reason <;> first | rfl | exact absurd rfl hreason
      rw [hclosed, Incident.isFault_tornDown]
      exact iff_of_false (broken (by simp) fun m h => (outcome_ne m).2 _ h.symm) hreason
  | unwritten own e =>
    refine ⟨_, rfl, iff_of_false ?_ (by simp [Incident.isFault])⟩
    split
    · exact broken (by simp) fun m h => (outcome_ne m).1 _ h.symm
    · exact broken (by simp [teardownError]) fun m h => (outcome_ne m).2 _ h.symm
  | taken other =>
    have hseq : other = seq := by
      simp only [Incident.verdict] at hdecides
      split at hdecides
      · assumption
      · cases hdecides
    exact absurd (hseq ▸ hmem) hnot

/-- **What decides completes the call**, on a client that is coming to its end. -/
theorem Leaving.settled (h : c.Leaving) (horderly : c.Orderly) (hmem : (seq, n) ∈ c.pending)
    {actions : List Action} (hrun : c.run actions = some c') :
    (decisive seq (c.incidents actions) = none → c'.resultsOf n = []) ∧
    ∀ i, decisive seq (c.incidents actions) = some i → ∃ r, i.verdict seq = some [r] ∧
      c'.resultsOf n = [r] ∧ (Promised seq (c.incidents actions) r ↔ i.isFault = false) := by
  have hresults := ((fares_of_run horderly hmem hrun).results (horderly.run hrun)).1
  rw [findSome?_verdict] at hresults
  refine ⟨?_, ?_⟩
  · intro hnone
    rw [hresults, hnone]
    rfl
  · intro i hi
    obtain ⟨r, hverdict, hpromised⟩ := promised_iff hi (h.not_taken hrun)
    refine ⟨r, hverdict, ?_, hpromised⟩
    rw [hresults, hi, Option.bind_some, hverdict]
    rfl

/-- Once the loop has ended, something has decided. -/
theorem exists_decisive (hnot : c.receiving ≠ .ended) {actions : List Action}
    (hrun : c.run actions = some c') (hended : c'.receiving = .ended) (seq : UInt64) :
    ∃ i, decisive seq (c.incidents actions) = some i := by
  obtain ⟨reason, htold⟩ := (ended_iff_tornDown hnot hrun).mp hended
  cases hi : decisive seq (c.incidents actions) with
  | some i => exact ⟨i, rfl⟩
  | none => exact absurd rfl (List.find?_eq_none.mp hi _ htold)

/-! ## The main statement -/

/-- **What becomes of the calls that are pending when a close is granted**, whatever happens
afterwards:

- a call is completed by the incident that decides, if there is one, and as the close promises just
  if this is no fault of the connection;
- there is no fault if the loop notices that it has been asked to end, at whatever moment, and every
  request can be written;
- the client can come to its end, without anyone else, and then each of the calls is completed. -/
theorem closed_calls_settled {o : Options} {source : Source} {sink sink' : Sink} {c₀ c'' : Client}
    {actions more : List Action} (hconnect : connect o source sink = (.ok c₀, sink'))
    (hrun : c₀.run actions = some c) (havailable : c.isAvailable)
    (hclose : c.step .close = some c') (hmore : c'.run more = some c'') :
    (∀ seq n, (seq, n) ∈ c.pending →
      (decisive seq (c'.incidents more) = none → c''.resultsOf n = []) ∧
      ∀ i, decisive seq (c'.incidents more) = some i → ∃ r, i.verdict seq = some [r] ∧
        c''.resultsOf n = [r] ∧ (Promised seq (c'.incidents more) r ↔ i.isFault = false)) ∧
    (.noticeClose ∈ more → (∀ own e, .unwritten own e ∉ c'.incidents more) →
      ∀ i ∈ c'.incidents more, i.isFault = false) ∧
    ∃ ending c₃, (∀ a ∈ ending, a = .write ∨ a = .noticeClose ∨ a = .terminate) ∧
      c''.run ending = some c₃ ∧ c₃.receiving = .ended ∧
      ∀ seq n, (seq, n) ∈ c.pending → ∃ r, c₃.resultsOf n = [r] := by
  obtain ⟨hleaving, hpending, hreceiving⟩ := leaving_of_close havailable hclose
  have horderly : c'.Orderly := (Orderly.of_connect hconnect hrun).step hclose
  have hnot : c'.receiving ≠ .ended := by
    intro hended
    have hlost := lost_of_ended hconnect hrun (hreceiving.symm.trans hended)
    simp [isAvailable, hlost] at havailable
  rw [← hpending]
  refine ⟨fun seq n hmem => hleaving.settled horderly hmem hmore, ?_, ?_⟩
  · intro hnoticed hwritten i hi
    cases i with
    | heard | taken => rfl
    | unwritten own e => exact absurd hi (hwritten own e)
    | tornDown reason =>
      rw [Incident.isFault_tornDown]
      exact shutdown_of_mem_noticeClose hnot hmore hnoticed hi
  · obtain ⟨ending, c₃, hown, hending, hended⟩ :=
      (hleaving.run hmore).exists_ended (horderly.run hmore)
    have hall : c'.run (more ++ ending) = some c₃ := Run.append_eq_some.mpr ⟨c'', hmore, hending⟩
    refine ⟨ending, c₃, hown, hending, hended, ?_⟩
    intro seq n hmem
    obtain ⟨i, hi⟩ := exists_decisive hnot hall hended seq
    obtain ⟨r, -, hr, -⟩ := (hleaving.settled horderly hmem hall).2 i hi
    exact ⟨r, hr⟩

/-- A call is written, and waits for its response. -/
def oneCall : List Action := [.issue "Calc.Unit" ⟨.unit, ()⟩, .register 0, .write]

/-- The server hangs up, and the loop finds that out before it notices that it is to end. -/
def hangingUp : List Action := [.hangUp .finished, .read, .terminate]

/-- The loop notices that it is to end before it finds out that the server has hung up. -/
def noticing : List Action := [.hangUp .finished, .noticeClose, .terminate]

theorem closed_calls_settled_noticed :
    ∃ c₀ sink c c' c'', connect .default {} { behaviour := .faithful } = (.ok c₀, sink) ∧
      c₀.run oneCall = some c ∧ c.isAvailable ∧ c.step .close = some c' ∧
      c'.run noticing = some c'' ∧ (1, 0) ∈ c.pending ∧
      ∃ r, c''.resultsOf 0 = [r] ∧ Promised 1 (c'.incidents noticing) r := by
  have hends : ((connect .default {} { behaviour := .faithful }).1.toOption.bind
      (run · oneCall)).any (fun c => c.isAvailable && decide ((1, 0) ∈ c.pending) &&
        (c.step .close).any fun c' => (c'.run noticing).isSome &&
          (decisive 1 (c'.incidents noticing)).isSome &&
          (c'.incidents noticing).all fun i => !(i matches .unwritten ..)) = true := by
    decide +kernel
  obtain ⟨c₀, sink, c, hconnect, hrun, hchecks⟩ := exists_run hends
  simp only [Bool.and_eq_true, decide_eq_true_eq] at hchecks
  obtain ⟨⟨havailable, hmem⟩, hcloses⟩ := hchecks
  obtain ⟨c', hclose, hchecks⟩ := (Option.any_eq_true _ _).mp hcloses
  simp only [Bool.and_eq_true, List.all_eq_true] at hchecks
  obtain ⟨⟨hmore, hdecides⟩, hwritten⟩ := hchecks
  obtain ⟨c'', hmore⟩ := Option.isSome_iff_exists.mp hmore
  obtain ⟨i, hi⟩ := Option.isSome_iff_exists.mp hdecides
  obtain ⟨hsettled, hfaultless, -⟩ := closed_calls_settled hconnect hrun havailable hclose hmore
  obtain ⟨r, -, hr, hpromised⟩ := (hsettled 1 0 hmem).2 i hi
  have hfine : i.isFault = false := by
    apply hfaultless (by simp [noticing]) ?_ i (List.mem_of_find?_eq_some hi)
    intro own e hunwritten
    simpa using hwritten _ hunwritten
  exact ⟨c₀, sink, c, c', c'', hconnect, hrun, havailable, hclose, hmore, hmem, r, hr,
    hpromised.mpr hfine⟩

/-- Why the connection is said to be closed. -/
def closedBecause? : Except CallError Bytes → Option String
  | .error (.connectionClosed why) => some why
  | _ => none

/-- What is said where the server has hung up. -/
def serverGone : String := "protocol error: connection closed"

/-- **A call that is pending when a close is granted may be lost all the same**: the server hangs
up, the loop reads that before it notices that it is to end, and the call fails as where the
connection is lost. -/
theorem closed_call_lost :
    ∃ c₀ sink c c' c'', connect .default {} { behaviour := .faithful } = (.ok c₀, sink) ∧
      c₀.run oneCall = some c ∧ c.isAvailable ∧ c.step .close = some c' ∧
      c'.run hangingUp = some c'' ∧ (1, 0) ∈ c.pending ∧
      (c''.resultsOf 0).map closedBecause? = [some serverGone] ∧
      ∀ r ∈ c''.resultsOf 0, ¬ Promised 1 (c'.incidents hangingUp) r := by
  have hends : ((connect .default {} { behaviour := .faithful }).1.toOption.bind
      (run · oneCall)).any (fun c => c.isAvailable && decide ((1, 0) ∈ c.pending) &&
        (c.step .close).any fun c' => (c'.run hangingUp).any fun c'' =>
          decide ((c''.resultsOf 0).map closedBecause? = [some serverGone])) = true := by
    decide +kernel
  obtain ⟨c₀, sink, c, hconnect, hrun, hchecks⟩ := exists_run hends
  simp only [Bool.and_eq_true, decide_eq_true_eq] at hchecks
  obtain ⟨⟨havailable, hmem⟩, hcloses⟩ := hchecks
  obtain ⟨c', hclose, hchecks⟩ := (Option.any_eq_true _ _).mp hcloses
  obtain ⟨c'', hmore, hresults⟩ := (Option.any_eq_true _ _).mp hchecks
  replace hresults := of_decide_eq_true hresults
  refine ⟨c₀, sink, c, c', c'', hconnect, hrun, havailable, hclose, hmore, hmem, hresults, ?_⟩
  intro r hr hpromised
  have hwhy : closedBecause? r ∈ [some serverGone] := hresults ▸ List.mem_map_of_mem hr
  rcases hpromised with rfl | ⟨m, -, -, rfl⟩
  · simp [closedBecause?] at hwhy
  · simp only [Message.outcome] at hwhy
    split at hwhy <;> simp [closedBecause?] at hwhy

end Client

end WireCall
