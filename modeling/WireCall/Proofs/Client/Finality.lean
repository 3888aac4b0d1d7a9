import WireCall.Proofs.Client.Closing
import WireCall.Proofs.Message.Containment

/-!
# A client that is shut down stays so

A client is available as long as it is neither closing nor lost. Both stay for good
(`Client.stays_unavailable`), so one look at them is enough: what was too late once is too late for
ever. Of all closes at most one is granted (`Client.granted_le`), and whoever closes the writer, the
stream is shut down together with it (`Writer.shutdowns_obey`), so once.

The main statement is `Client.shutdown_final`.
-/

namespace WireCall

/-! ## The stream is shut down with its writer -/

namespace Writer

/-- **The stream is shut down when the writer becomes closed**, and at no other moment. -/
theorem shutdowns_obey (w : Writer) (o : Order) :
    (w.obey o).2.sink.shutdowns + w.closed.toNat =
      w.sink.shutdowns + (w.obey o).2.closed.toNat := by
  cases hclosed : w.closed with
  | true => rw [obey_of_closed hclosed, hclosed]
  | false =>
    have hobeys := obeys_of_open hclosed o
    generalize w.obey o = answer at hobeys
    cases hobeys with
    | misfit => rw [hclosed]
    | written _ _ hshutdowns => exact hshutdowns
    | broken _ _ _ hshutdowns | closed _ hshutdowns => exact hshutdowns

theorem closed_obey {w : Writer} (hclosed : w.closed = true) (o : Order) :
    (w.obey o).2.closed = true := by
  rw [obey_of_closed hclosed]
  exact hclosed

end Writer

/-- Sending the negotiation line does not shut the stream down. -/
theorem Negotiation.shutdowns_send (o : Options) (s : Sink) :
    (Negotiation.send o s).2.shutdowns = s.shutdowns := by
  rw [Negotiation.send]
  cases o.toLine with
  | error e => rfl
  | ok line =>
    obtain ⟨-, -, hshutdowns⟩ := Sink.taken_send_front line s
    simp only
    split <;> simp_all

namespace Client

variable {c c' : Client} {actions : List Action}

/-! ## How a client is shut down -/

/-- **How a step bears on the shutdown of a client**: on its writer, and on the closes. -/
inductive Shutting (c c' : Client) : Prop
  /-- the writer gets one order at most, and no close is made -/
  | still (hwriter : c'.writer = c.writer ∨ ∃ o, c'.writer = (c.writer.obey o).2)
      (hcloses : c'.closes = c.closes) (hwaiting : c'.closeWaiting = c.closeWaiting)
      (hclosing : c'.closing = c.closing) : Shutting c c'
  | grants (hopen : c.closing = false) (hwriter : c'.writer = c.writer)
      (hcloses : c'.closes = c.closes) (hwaiting : c'.closeWaiting = true)
      (hclosing : c'.closing = true) : Shutting c c'
  | refuses (hwriter : c'.writer = c.writer)
      (hcloses : c'.closes = c.closes ++ [.error .alreadyShutdown])
      (hwaiting : c'.closeWaiting = c.closeWaiting) (hclosing : c'.closing = c.closing) :
      Shutting c c'
  /-- the close that was granted gets its result -/
  | finishes {r : Except CallError Unit} (hwaits : c.closeWaiting = true)
      (hwriter : c'.writer = c.writer.close.2) (hcloses : c'.closes = c.closes ++ [r])
      (hwaiting : c'.closeWaiting = false) (hclosing : c'.closing = c.closing) : Shutting c c'
  | abandons (hwriter : c'.writer = c.writer) (hcloses : c'.closes = c.closes)
      (hwaiting : c'.closeWaiting = c.closeWaiting) (hclosing : c'.closing = true) : Shutting c c'

/-- **Every step bears on the shutdown** in one of these ways. -/
theorem shutting_of_step {a : Action} (hstep : c.step a = some c') : Shutting c c' := by
  -- a request that is given to the writer is an order
  have hobeys : ∀ (h : Header) (body : Bytes), c.writer.writeEncoded h body =
    c.writer.obey (.write (.encoded h body)) := fun _ _ => rfl
  cases move_of_step hstep with
  | writes _ _ hwrite =>
    exact .still (.inr ⟨_, congrArg Prod.snd (hwrite.symm.trans (hobeys _ _))⟩) rfl rfl rfl
  | @breaks _ _ call writer e _ _ hwrite =>
    obtain ⟨failed, habort⟩ := exists_abort { c with writer, holder := none } call.seq e
    rw [habort]
    exact .still (.inr ⟨_, congrArg Prod.snd (hwrite.symm.trans (hobeys _ _))⟩) rfl rfl rfl
  | tells => exact .still (.inr ⟨.close, rfl⟩) rfl rfl rfl
  | grants hclosing => exact .grants hclosing rfl rfl rfl rfl
  | declines => exact .refuses rfl rfl rfl rfl
  | finishes hwaits => exact .finishes hwaits rfl rfl rfl rfl
  | abandons => exact .abandons rfl rfl rfl rfl
  | _ => exact .still (.inl rfl) rfl rfl rfl

/-! ## The writer of a client -/

/-- A step leaves the writer alone, or gives it one order. -/
theorem Shutting.writer (h : Shutting c c') :
    c'.writer = c.writer ∨ ∃ o, c'.writer = (c.writer.obey o).2 := by
  cases h with
  | still hwriter => exact hwriter
  | grants _ hwriter | refuses hwriter | abandons hwriter => exact .inl hwriter
  | finishes _ hwriter => exact .inr ⟨.close, hwriter⟩

/-- A writer that is closed stays closed. -/
theorem closed_run (hclosed : c.writer.closed = true) (hrun : c.run actions = some c') :
    c'.writer.closed = true := by
  refine Run.keeps (P := fun c : Client => c.writer.closed = true) ?_ hclosed hrun
  intro m a m' hclosed hstep
  rcases (shutting_of_step hstep).writer with hsame | ⟨o, ho⟩
  · rw [hsame]
    exact hclosed
  · rw [ho]
    exact Writer.closed_obey hclosed o

/-- The stream has been shut down if and only if the writer is closed, and then once. -/
theorem shutdowns_run {n : Nat} (h : c.writer.sink.shutdowns = n + c.writer.closed.toNat)
    (hrun : c.run actions = some c') :
    c'.writer.sink.shutdowns = n + c'.writer.closed.toNat := by
  refine Run.keeps
    (P := fun c : Client => c.writer.sink.shutdowns = n + c.writer.closed.toNat) ?_ h hrun
  intro m a m' h hstep
  rcases (shutting_of_step hstep).writer with hsame | ⟨o, ho⟩
  · rw [hsame]
    exact h
  · have hobey := m.writer.shutdowns_obey o
    rw [ho]
    omega

/-! ## Clients that are not available -/

theorem isAvailable_eq_false : c.isAvailable = false ↔ c.closing = true ∨ c.lost = true := by
  rw [isAvailable, Bool.and_eq_false_iff, Bool.not_eq_false', Bool.not_eq_false']

/-- A client that has been closed stays so. -/
theorem closing_run (hclosing : c.closing = true) (hrun : c.run actions = some c') :
    c'.closing = true :=
  Run.keeps (P := fun c : Client => c.closing = true)
    (fun hclosing hstep => (looping_of_step hstep).closing hclosing) hclosing hrun

/-- **A client that is not available never becomes so.** -/
theorem stays_unavailable (h : c.isAvailable = false) (hrun : c.run actions = some c') :
    c'.isAvailable = false := by
  rw [isAvailable_eq_false] at h ⊢
  exact h.imp (closing_run · hrun) (Later.run hrun).lost

/-- A step of a client that is not available puts nothing into the table. -/
theorem pending_sublist_of_step (horderly : c.Orderly) (h : c.isAvailable = false) {a : Action}
    (hstep : c.step a = some c') : c'.pending.Sublist c.pending := by
  have hturn := horderly.turn_of_step hstep
  generalize his : c.incident a = is at hturn
  cases hturn with
  | still _ hpending | issues _ hpending | refuses _ _ _ _ hpending =>
    exact hpending ▸ List.Sublist.refl _
  | registers =>
    have havailable := available_of_taken (his ▸ List.mem_singleton_self _)
    rw [h] at havailable
    cases havailable
  | @settles i _ _ hpending =>
    rw [hpending]
    exact i.spared_sublist _

/-- **The table of a client that is not available only shrinks**, and no number is given out. -/
theorem pending_sublist_of_run (horderly : c.Orderly) (h : c.isAvailable = false)
    (hrun : c.run actions = some c') :
    c'.pending.Sublist c.pending ∧ ∀ seq, .taken seq ∉ c.incidents actions := by
  refine Run.induct (P := fun as c' =>
    c'.pending.Sublist c.pending ∧ ∀ seq, .taken seq ∉ c.incidents as) ?_ ?_ actions c' hrun
  · exact ⟨List.Sublist.refl _, fun _ => List.not_mem_nil⟩
  · rintro as m a c' hm ⟨hpending, hnone⟩ hstep
    have hm' := stays_unavailable h hm
    refine ⟨(pending_sublist_of_step (horderly.run hm) hm' hstep).trans hpending, ?_⟩
    intro seq hmem
    rw [incidents_concat hm hstep] at hmem
    rcases List.mem_append.mp hmem with hmem | hmem
    · exact hnone seq hmem
    · rw [available_of_taken hmem] at hm'
      cases hm'

/-- **A call that is too late** is refused at once: nothing changes but that it is completed. -/
theorem register_of_unavailable (h : c.isAvailable = false) {n : Nat} {method : String}
    {seq : UInt64} {body : Bytes} (hcall : c.calls[n]? = some ⟨method, seq, some body⟩)
    (hidle : c.holder = none) :
    c.step (.register n) =
      some (complete { c with calls := c.calls.set n ⟨method, 0, none⟩ } n (.error .shutdown)) :=
  (Move.refuses hidle hcall (isAvailable_eq_false.mp h)).step

/-- **A close that is too late** changes nothing. -/
theorem close_of_unavailable (h : c.isAvailable = false) :
    c.step .close = some { c with closes := c.closes ++ [.error .alreadyShutdown] } :=
  (Move.declines (isAvailable_eq_false.mp h)).step

/-! ## Closes that are granted -/

/-- Whether a close came in time, by its result. -/
def inTime : Except CallError Unit → Bool
  | .error .alreadyShutdown => false
  | _ => true

/-- How many closes have been granted, the one that still waits included. -/
def granted (c : Client) : Nat := c.closes.countP inTime + c.closeWaiting.toNat

/-- A close is granted only where none has been. -/
theorem Shutting.granted (h : Shutting c c') :
    c'.granted + c.closing.toNat ≤ c.granted + c'.closing.toNat := by
  cases h with
  | still _ hcloses hwaiting hclosing =>
    rw [Client.granted, Client.granted, hcloses, hwaiting, hclosing]
  | grants hopen _ hcloses hwaiting hclosing =>
    simp only [Client.granted, hcloses, hwaiting, hclosing, hopen, Bool.toNat_true,
      Bool.toNat_false]
    omega
  | refuses _ hcloses hwaiting hclosing =>
    simp only [Client.granted, hcloses, hwaiting, hclosing, List.countP_append,
      List.countP_singleton, inTime, Bool.false_eq_true, if_false]
    omega
  | finishes hwaits _ hcloses hwaiting hclosing =>
    -- the close no longer waits, and has its result instead
    simp only [Client.granted, hwaits, hcloses, hwaiting, hclosing, List.countP_append,
      List.countP_singleton, Bool.toNat_true, Bool.toNat_false]
    split <;> omega
  | abandons _ hcloses hwaiting hclosing =>
    have := Bool.toNat_le c.closing
    simp only [Client.granted, hcloses, hwaiting, hclosing, Bool.toNat_true]
    omega

/-- **At most one close is granted.** -/
theorem granted_le (h : c.granted ≤ c.closing.toNat) (hrun : c.run actions = some c') :
    c'.granted ≤ c'.closing.toNat := by
  refine Run.keeps (P := fun c : Client => c.granted ≤ c.closing.toNat) ?_ h hrun
  intro m a m' h hstep
  have := (shutting_of_step hstep).granted
  omega

/-! ## The end of the loop -/

/-- **When the loop has told the pending calls**, the table is empty and the writer closed, and both
stay so. -/
theorem drained_of_terminate (horderly : c.Orderly) (hrun : c.run actions = some c')
    (hmem : .terminate ∈ actions) : c'.pending = [] ∧ c'.writer.closed = true := by
  obtain ⟨before, after, rfl⟩ := List.append_of_mem hmem
  obtain ⟨m, hbefore, hafter⟩ := Run.append_eq_some.mp hrun
  obtain ⟨m', hstep, hafter⟩ := Run.cons_eq_some.mp hafter
  have horderly' : m'.Orderly := (horderly.run hbefore).step hstep
  have hdrained : m'.lost = true ∧ m'.pending = [] ∧ m'.writer.closed = true := by
    cases move_of_step hstep
    exact ⟨rfl, rfl, m.writer.close_snd.2.1⟩
  obtain ⟨hlost, hpending, hclosed⟩ := hdrained
  refine ⟨?_, closed_run hclosed hafter⟩
  have hsub := (pending_sublist_of_run horderly' (isAvailable_eq_false.mpr (.inr hlost)) hafter).1
  rw [hpending] at hsub
  exact List.sublist_nil.mp hsub

/-! ## The main statement -/

/-- **A shutdown is final**, whatever happens to a client that has been connected, and in whatever
order:

- that it is closing, and that it is lost, is never taken back;
- from the moment at which it is one of the two, it is never available again, its table only
  shrinks, and no number is given out; a call that comes to its registration is completed as shut
  down, and a close is told that it comes too late, and nothing else changes;
- of all closes there have been, at most one got another result than that, or waits for it;
- the stream has been shut down once if the writer is closed, and else not at all; when the loop has
  told the pending calls, the writer is closed and the table is empty. -/
theorem shutdown_final {o : Options} {source : Source} {sink sink' : Sink} {c₀ : Client}
    {more : List Action} (hconnect : connect o source sink = (.ok c₀, sink'))
    (hrun : c₀.run actions = some c) (hmore : c.run more = some c') :
    (c.closing = true → c'.closing = true) ∧ (c.lost = true → c'.lost = true) ∧
    (c.closing = true ∨ c.lost = true →
      c'.isAvailable = false ∧ c'.pending.Sublist c.pending ∧
      (∀ seq, .taken seq ∉ c.incidents more) ∧
      (∀ n method seq body, c'.calls[n]? = some ⟨method, seq, some body⟩ → c'.holder = none →
        c'.step (.register n) = some (complete
          { c' with calls := c'.calls.set n ⟨method, 0, none⟩ } n (.error .shutdown))) ∧
      c'.step .close = some { c' with closes := c'.closes ++ [.error .alreadyShutdown] }) ∧
    c'.closes.countP inTime + c'.closeWaiting.toNat ≤ 1 ∧
    c'.writer.sink.shutdowns = sink.shutdowns + c'.writer.closed.toNat ∧
    (.terminate ∈ actions ++ more → c'.pending = [] ∧ c'.writer.closed = true) := by
  have horderly := Orderly.of_connect hconnect (rfl : c₀.run [] = some c₀)
  have hall : c₀.run (actions ++ more) = some c' := Run.append_eq_some.mpr ⟨c, hrun, hmore⟩
  have hbegins : c₀.granted ≤ c₀.closing.toNat ∧
      c₀.writer.sink.shutdowns = sink.shutdowns + c₀.writer.closed.toNat := by
    have hshutdowns := Negotiation.shutdowns_send o sink
    simp only [connect] at hconnect
    split at hconnect
    · cases hconnect
    · rename_i hsend
      obtain ⟨rfl, -⟩ : _ = c₀ ∧ _ := by simpa using hconnect
      rw [hsend] at hshutdowns
      exact ⟨Nat.le_refl 0, hshutdowns⟩
  refine ⟨(closing_run · hmore), (Later.run hmore).lost, ?_, ?_, shutdowns_run hbegins.2 hall,
    drained_of_terminate horderly hall⟩
  · intro hdown
    have hunavailable := isAvailable_eq_false.mpr hdown
    obtain ⟨hpending, hnone⟩ :=
      pending_sublist_of_run (horderly.run hrun) hunavailable hmore
    have hlater := stays_unavailable hunavailable hmore
    refine ⟨hlater, hpending, hnone, ?_, close_of_unavailable hlater⟩
    intro n method seq body hcall hidle
    exact register_of_unavailable hlater hcall hidle
  · exact (granted_le hbegins.1 hall).trans (Bool.toNat_le _)

/-- One call is pending and another one waits when the client is closed. -/
def closedWhileWaiting : List Action :=
  [.issue "Calc.Sum" ⟨.unit, ()⟩, .issue "Calc.Fail" ⟨.text, "why"⟩, .register 0, .write, .close]

/-- The close is carried out, and the loop comes to its end. -/
def comingToRest : List Action := [.finishClose, .noticeClose, .terminate]

theorem shutdown_final_at_rest :
    ∃ c₀ sink c c', connect .default {} { behaviour := .faithful } = (.ok c₀, sink) ∧
      c₀.run closedWhileWaiting = some c ∧ c.run comingToRest = some c' ∧
      c.pending.length = 1 ∧ c'.pending = [] ∧ c'.writer.sink.shutdowns = 1 ∧
      ∃ c'', c'.step (.register 1) = some c'' ∧ c''.nextSeq = c'.nextSeq ∧
        c''.writer = c'.writer := by
  have hends : ((connect .default {} { behaviour := .faithful }).1.toOption.bind
      (run · closedWhileWaiting)).any (fun c => c.closing && decide (c.pending.length = 1) &&
        (c.run comingToRest).any fun c' => c'.holder.isNone &&
          (c'.calls[1]?).any fun call => call.waiting.isSome) = true := by decide +kernel
  obtain ⟨c₀, sink, c, hconnect, hrun, hchecks⟩ := exists_run hends
  simp only [Bool.and_eq_true, decide_eq_true_eq] at hchecks
  obtain ⟨⟨hclosing, hone⟩, hrests⟩ := hchecks
  obtain ⟨c', hmore, hchecks⟩ := (Option.any_eq_true _ _).mp hrests
  rw [Bool.and_eq_true, Option.isNone_iff_eq_none] at hchecks
  obtain ⟨hidle, hwaits⟩ := hchecks
  obtain ⟨⟨method, seq, waiting⟩, hcall, hwaits⟩ := (Option.any_eq_true _ _).mp hwaits
  obtain ⟨body, rfl⟩ := Option.isSome_iff_exists.mp hwaits
  obtain ⟨-, -, hdown, -, hshutdowns, hdrained⟩ := shutdown_final hconnect hrun hmore
  obtain ⟨-, -, -, hregister, -⟩ := hdown (.inl hclosing)
  obtain ⟨hpending, hclosed⟩ := hdrained (by simp [comingToRest])
  rw [hclosed] at hshutdowns
  exact ⟨c₀, sink, c, c', hconnect, hrun, hmore, hone, hpending, hshutdowns, _,
    hregister 1 method seq body hcall hidle, rfl, rfl⟩

end Client

end WireCall
