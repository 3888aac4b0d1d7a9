import WireCall.Proofs.Client.Turns

/-!
# What becomes of a pending call

The turns of a client keep its table in order (`Client.Orderly.turn`), so the table of every client
that has been connected is (`Client.Orderly.of_connect`).

A call that is pending stays so until there is a verdict on its number, and the first one stays its
only one (`Client.Fares`, `Client.fares_of_run`).
-/

namespace WireCall

namespace Client

variable {c c' : Client} {is : List Incident}

/-! ## Clients that have been connected -/

/-- A client that has just been connected has nothing but its two streams. -/
theorem exists_of_connect {o : Options} {source : Source} {sink sink' : Sink}
    (hconnect : connect o source sink = (.ok c, sink')) :
    ∃ r w, c = { reader := r, writer := w } := by
  simp only [connect] at hconnect
  split at hconnect
  · cases hconnect
  · obtain ⟨rfl, -⟩ : _ = c ∧ _ := by simpa using hconnect
    exact ⟨_, _, rfl⟩

/-- A run in which something has been found out. -/
theorem exists_run {o : Options} {source : Source} {sink : Sink} {actions : List Action}
    {found : Client → Bool}
    (h : ((connect o source sink).1.toOption.bind (run · actions)).any found = true) :
    ∃ c₀ sink' c, connect o source sink = (.ok c₀, sink') ∧ c₀.run actions = some c ∧
      found c = true := by
  obtain ⟨c, hc, hfound⟩ := (Option.any_eq_true _ _).mp h
  obtain ⟨c₀, hc₀, hrun⟩ := Option.bind_eq_some_iff.mp hc
  cases hconnect : connect o source sink with
  | mk r sink' =>
  rw [hconnect] at hc₀
  cases r with
  | error e => cases hc₀
  | ok c₁ =>
    obtain rfl := Option.some.inj hc₀
    exact ⟨c₁, sink', c, rfl, hrun, hfound⟩

/-! ## The order of the table is kept -/

/-- A call that waits is another one than a call that does not. -/
theorem ne_of_waiting {m n : Nat} {a b : Call} (ha : c.calls[m]? = some a)
    (hb : c.calls[n]? = some b) (hwaits : a.waiting.isSome) (hnot : b.waiting = none) : n ≠ m := by
  rintro rfl
  obtain rfl := Option.some.inj (ha.symm.trans hb)
  rw [hnot] at hwaits
  cases hwaits

namespace Orderly

/-- A client that has just been connected. -/
theorem init (r : Reader) (w : Writer) : Orderly { reader := r, writer := w } where
  keys := List.nodup_nil
  calls := List.nodup_nil
  entered := fun _ hp => absurd hp List.not_mem_nil
  early := fun _ _ => rfl
  holder := nofun

/-- A call that waits is not pending. -/
theorem absent_of_waiting (h : c.Orderly) {n : Nat} {call : Call} (hcall : c.calls[n]? = some call)
    (hwaits : call.waiting.isSome) {p : UInt64 × Nat} (hp : p ∈ c.pending) : p.2 ≠ n := by
  obtain ⟨a, ha, -, hnot, -⟩ := h.entered p hp
  exact ne_of_waiting hcall ha hwaits hnot

/-- A new call finds the table as it is. -/
theorem issues (h : c.Orderly) {call : Call} (hcalls : c'.calls = c.calls ++ [call])
    (hpending : c'.pending = c.pending)
    (hresults : ∀ n, n ≠ c.calls.length ∨ call.waiting.isSome → c'.resultsOf n = c.resultsOf n)
    (hholder : c'.holder = c.holder) : c'.Orderly := by
  have old : ∀ {n : Nat} {a : Call}, c.calls[n]? = some a →
      c'.calls[n]? = some a ∧ c'.resultsOf n = c.resultsOf n := by
    intro n a ha
    have hlt := (List.getElem?_eq_some_iff.mp ha).1
    rw [hcalls, List.getElem?_append_left hlt]
    exact ⟨ha, hresults n (.inl (Nat.ne_of_lt hlt))⟩
  refine ⟨hpending ▸ h.keys, hpending ▸ h.calls, ?_, ?_, ?_⟩
  · intro p hp
    obtain ⟨a, ha, hseq, hnot, hnone⟩ := h.entered p (hpending ▸ hp)
    obtain ⟨ha', hsame⟩ := old ha
    exact ⟨a, ha', hseq, hnot, hsame.trans hnone⟩
  · -- the new call itself may wait, those before it are as they were
    intro n hwaits
    rcases Nat.lt_trichotomy n c.calls.length with hlt | rfl | hgt
    · have hn := List.getElem?_eq_getElem hlt
      rw [(old hn).2]
      refine h.early n fun a ha => hwaits a (old ha).1
    · have hnone : c.calls[c.calls.length]? = none := List.getElem?_eq_none (Nat.le_refl _)
      rw [hresults _ (.inr (hwaits call (by rw [hcalls, List.getElem?_concat_length])))]
      exact h.early _ fun a ha => by cases hnone.symm.trans ha
    · have hnone : c.calls[n]? = none := List.getElem?_eq_none (Nat.le_of_lt hgt)
      rw [hresults _ (.inl (Nat.ne_of_gt hgt))]
      exact h.early _ fun a ha => by cases hnone.symm.trans ha
  · intro n body hholding
    obtain ⟨a, ha, hnot, hentered⟩ := h.holder (hholder ▸ hholding)
    obtain ⟨ha', hsame⟩ := old ha
    rw [hpending, hsame]
    exact ⟨a, ha', hnot, hentered⟩

/-- A call that comes too late leaves the table as it is. -/
theorem refuses (h : c.Orderly) {n : Nat} {call call' : Call} (hcall : c.calls[n]? = some call)
    (hwaits : call.waiting.isSome) (hwaits' : call'.waiting = none)
    (hcalls : c'.calls = c.calls.set n call') (hpending : c'.pending = c.pending)
    (hresults : ∀ m, m ≠ n → c'.resultsOf m = c.resultsOf m)
    (hholder : c'.holder = c.holder) : c'.Orderly := by
  have other : ∀ {m : Nat}, m ≠ n → c'.calls[m]? = c.calls[m]? := by
    intro m hm
    rw [hcalls, List.getElem?_set_ne (Ne.symm hm)]
  refine ⟨hpending ▸ h.keys, hpending ▸ h.calls, ?_, ?_, ?_⟩
  · intro p hp
    rw [hpending] at hp
    have hne := h.absent_of_waiting hcall hwaits hp
    rw [other hne, hresults _ hne]
    exact h.entered p hp
  · intro m hm
    have hne : m ≠ n := by
      rintro rfl
      have hnew : c'.calls[m]? = some call' := by
        rw [hcalls, List.getElem?_set_self (List.getElem?_eq_some_iff.mp hcall).1]
      have := hm call' hnew
      rw [hwaits'] at this
      cases this
    rw [hresults _ hne]
    rw [other hne] at hm
    exact h.early m hm
  · intro m body hholding
    obtain ⟨a, ha, hnot, hentered⟩ := h.holder (hholder ▸ hholding)
    have hne := ne_of_waiting hcall ha hwaits hnot
    rw [other hne, hpending, hresults _ hne]
    exact ⟨a, ha, hnot, hentered⟩

/-- A call that comes in time is entered under the next number. -/
theorem registers (h : c.Orderly) {n : Nat} {method : String} {seq : UInt64} {body : Bytes}
    (hcall : c.calls[n]? = some ⟨method, seq, some body⟩)
    (hcalls : c'.calls = c.calls.set n ⟨method, c.nextSeq, none⟩)
    (hpending : c'.pending = (Incident.taken c.nextSeq).spared c.pending ++ [(c.nextSeq, n)])
    (hresults : ∀ m, c'.resultsOf m = c.resultsOf m)
    (hholder : c'.holder = some (n, body)) : c'.Orderly := by
  have hnew : c'.calls[n]? = some ⟨method, c.nextSeq, none⟩ := by
    rw [hcalls, List.getElem?_set_self (List.getElem?_eq_some_iff.mp hcall).1]
  have hentry : (c.nextSeq, n) ∈ c'.pending := by
    rw [hpending]
    exact List.mem_append_right _ List.mem_cons_self
  have hspared := (Incident.taken c.nextSeq).spared_sublist c.pending
  refine ⟨?_, ?_, ?_, ?_, ?_⟩
  · rw [hpending, List.map_append, List.nodup_append]
    refine ⟨h.keys.sublist (hspared.map _), List.nodup_singleton _, ?_⟩
    intro a ha b hb
    obtain ⟨p, hp, rfl⟩ := List.mem_map.mp ha
    obtain rfl := List.mem_singleton.mp hb
    rw [spared_taken] at hp
    exact (mem_without.mp hp).2
  · rw [hpending, List.map_append, List.nodup_append]
    refine ⟨h.calls.sublist (hspared.map _), List.nodup_singleton _, ?_⟩
    intro a ha b hb
    obtain ⟨p, hp, rfl⟩ := List.mem_map.mp ha
    obtain rfl := List.mem_singleton.mp hb
    exact h.absent_of_waiting hcall rfl (hspared.subset hp)
  · intro p hp
    rw [hresults]
    rw [hpending] at hp
    rcases List.mem_append.mp hp with hp | hp
    · have hne := h.absent_of_waiting hcall rfl (hspared.subset hp)
      rw [hcalls, List.getElem?_set_ne (Ne.symm hne)]
      exact h.entered p (hspared.subset hp)
    · obtain rfl := List.mem_singleton.mp hp
      refine ⟨_, hnew, rfl, rfl, h.early n fun a ha => ?_⟩
      rw [← Option.some.inj (hcall.symm.trans ha)]
      rfl
  · intro m hm
    rw [hresults]
    have hne : m ≠ n := by
      rintro rfl
      cases hm _ hnew
    rw [hcalls, List.getElem?_set_ne (Ne.symm hne)] at hm
    exact h.early m hm
  · intro m body' hholding
    obtain ⟨rfl, -⟩ := Prod.mk.inj (Option.some.inj (hholder.symm.trans hholding))
    exact ⟨_, hnew, rfl, .inl hentry⟩

/-- The calls on which there is no verdict stay in the table. -/
theorem settles (h : c.Orderly) {i : Incident} (hi : ∀ seq, i.verdict seq ≠ some [])
    (hcalls : c'.calls = c.calls) (hpending : c'.pending = i.spared c.pending)
    (hresults : ∀ p ∈ c.pending, c'.resultsOf p.2 = c.resultsOf p.2 ++ (i.verdict p.1).getD [])
    (hothers : ∀ n, (∀ p ∈ c.pending, p.2 ≠ n) → c'.resultsOf n = c.resultsOf n)
    (hholder : c'.holder = c.holder ∨ c'.holder = none) : c'.Orderly := by
  have hspared := i.spared_sublist c.pending
  refine ⟨?_, ?_, ?_, ?_, ?_⟩
  · rw [hpending]
    exact h.keys.sublist (hspared.map _)
  · rw [hpending]
    exact h.calls.sublist (hspared.map _)
  · intro p hp
    rw [hpending] at hp
    obtain ⟨hp, hspared⟩ := Incident.mem_spared.mp hp
    obtain ⟨a, ha, hseq, hnot, hnone⟩ := h.entered p hp
    rw [hcalls, hresults p hp, hnone, hspared]
    exact ⟨a, ha, hseq, hnot, rfl⟩
  · intro n hwaits
    rw [hcalls] at hwaits
    rw [hothers n, h.early n hwaits]
    rintro p hp rfl
    obtain ⟨a, ha, -, hnot, -⟩ := h.entered p hp
    have := hwaits a ha
    rw [hnot] at this
    cases this
  · intro n body hholding
    rcases hholder with hsame | hnone
    · obtain ⟨a, ha, hnot, hentered⟩ := h.holder (hsame ▸ hholding)
      refine ⟨a, hcalls ▸ ha, hnot, ?_⟩
      -- its own entry is spared, or the verdict on it is a result
      by_cases hpresent : ∃ p ∈ c.pending, p.2 = n
      · obtain ⟨p, hp, rfl⟩ := hpresent
        obtain ⟨a', ha', hseq, -, hnone⟩ := h.entered p hp
        obtain rfl := Option.some.inj (ha.symm.trans ha')
        rw [hpending, hresults p hp, hnone, hseq]
        cases hverdict : i.verdict p.1 with
        | none => exact .inl (Incident.mem_spared.mpr ⟨hp, hverdict⟩)
        | some results => exact .inr fun heq => hi p.1 (hverdict.trans (congrArg some heq))
      · have habsent : ∀ p ∈ c.pending, p.2 ≠ n := fun p hp heq => hpresent ⟨p, hp, heq⟩
        refine .inr ?_
        rw [hothers n habsent]
        exact hentered.resolve_left fun hmem => habsent _ hmem rfl
    · cases hnone.symm.trans hholding

/-- **Every turn keeps the order of the table.** -/
theorem turn (h : c.Orderly) (hturn : Turn c c' is) : c'.Orderly := by
  cases hturn with
  | still hcalls hpending hresults hholder =>
    refine ⟨hpending ▸ h.keys, hpending ▸ h.calls, ?_, ?_, ?_⟩
    · intro p hp
      rw [hcalls, hresults]
      exact h.entered p (hpending ▸ hp)
    · intro n hwaits
      rw [hresults]
      exact h.early n (hcalls ▸ hwaits)
    · intro n body hholding
      rw [hcalls, hpending, hresults]
      rcases hholder with hsame | hnone
      · exact h.holder (hsame ▸ hholding)
      · cases hnone.symm.trans hholding
  | issues hcalls hpending hresults hholder => exact h.issues hcalls hpending hresults hholder
  | refuses hcall hwaits hwaits' hcalls hpending hresults hholder =>
    exact h.refuses hcall hwaits hwaits' hcalls hpending hresults hholder
  | registers hcall _ hcalls hpending hresults hholder =>
    exact h.registers hcall hcalls hpending hresults hholder
  | settles hi hcalls hpending hresults hothers hholder =>
    exact h.settles hi hcalls hpending hresults hothers hholder

theorem step (h : c.Orderly) {a : Action} (hstep : c.step a = some c') : c'.Orderly :=
  h.turn (h.turn_of_step hstep)

theorem run (h : c.Orderly) {actions : List Action} (hrun : c.run actions = some c') :
    c'.Orderly :=
  Run.keeps (P := Orderly) (fun h hstep => h.step hstep) h hrun

/-- **The table of every client is in order.** -/
theorem of_connect {o : Options} {source : Source} {sink sink' : Sink} {c₀ : Client}
    (hconnect : connect o source sink = (.ok c₀, sink')) {actions : List Action}
    (hrun : c₀.run actions = some c) : c.Orderly := by
  obtain ⟨r, w, rfl⟩ := exists_of_connect hconnect
  exact (init r w).run hrun

end Orderly

/-! ## What becomes of a pending call -/

/-- **How a call fares** that has been pending under a number, by the verdict there has been on that
number. -/
inductive Fares (c : Client) (seq : UInt64) (n : Nat) :
    Option (List (Except CallError Bytes)) → Prop
  | pends (hmem : (seq, n) ∈ c.pending) : Fares c seq n none
  /-- it has left the table with the results of the verdict -/
  | settled {results : List (Except CallError Bytes)}
      (hcall : ∃ call, c.calls[n]? = some call ∧ call.waiting = none)
      (habsent : ∀ p ∈ c.pending, p.2 ≠ n) (hresults : c.resultsOf n = results) :
      Fares c seq n (some results)

variable {seq : UInt64} {n : Nat} {verdict : Option (List (Except CallError Bytes))}

/-- A turn settles a pending call if its incident has a verdict on the number. -/
theorem Fares.turn_pending (horderly : c.Orderly) (hturn : Turn c c' is)
    (hmem : (seq, n) ∈ c.pending) : c'.Fares seq n (is.findSome? (Incident.verdict seq)) := by
  obtain ⟨a, ha, -, hnot, hnone⟩ := horderly.entered _ hmem
  cases hturn with
  | still _ hpending => exact .pends (hpending ▸ hmem)
  | issues _ hpending => exact .pends (hpending ▸ hmem)
  | refuses _ _ _ _ hpending => exact .pends (hpending ▸ hmem)
  | registers hcall _ hcalls hpending hresults =>
    rw [List.findSome?_singleton]
    have hne := ne_of_waiting hcall ha rfl hnot
    cases hverdict : (Incident.taken c.nextSeq).verdict seq with
    | none =>
      refine .pends ?_
      rw [hpending]
      exact List.mem_append_left _ (Incident.mem_spared.mpr ⟨hmem, hverdict⟩)
    | some results =>
      -- its number is given out again, and it leaves the table without a result
      have hempty : results = [] := by
        simp only [Incident.verdict] at hverdict
        split at hverdict
        · exact (Option.some.inj hverdict).symm
        · cases hverdict
      refine .settled ⟨a, ?_, hnot⟩ ?_ (by rw [hresults, hnone, hempty])
      · rw [hcalls, List.getElem?_set_ne (Ne.symm hne)]
        exact ha
      · intro p hp
        rw [hpending] at hp
        rcases List.mem_append.mp hp with hp | hp
        · exact horderly.ne_of_verdict hmem hverdict hp
        · obtain rfl := List.mem_singleton.mp hp
          exact Ne.symm hne
  | @settles i _ hcalls hpending hresults =>
    rw [List.findSome?_singleton]
    cases hverdict : i.verdict seq with
    | none =>
      refine .pends ?_
      rw [hpending]
      exact Incident.mem_spared.mpr ⟨hmem, hverdict⟩
    | some results =>
      refine .settled ⟨a, hcalls ▸ ha, hnot⟩ ?_ (by rw [hresults _ hmem, hnone, hverdict]; rfl)
      intro p hp
      rw [hpending] at hp
      exact horderly.ne_of_verdict hmem hverdict hp

/-- A call that is settled stays so. -/
theorem Fares.turn_settled (hturn : Turn c c' is) {results : List (Except CallError Bytes)}
    (h : c.Fares seq n (some results)) : c'.Fares seq n (some results) := by
  cases h with
  | settled hsettled habsent hresults =>
    obtain ⟨call, hcall, hnot⟩ := hsettled
    have hlt := (List.getElem?_eq_some_iff.mp hcall).1
    cases hturn with
    | still hcalls hpending hsame =>
      exact .settled ⟨call, hcalls ▸ hcall, hnot⟩ (hpending ▸ habsent) ((hsame n).trans hresults)
    | issues hcalls hpending hsame =>
      refine .settled ⟨call, ?_, hnot⟩ (hpending ▸ habsent)
        ((hsame n (.inl (Nat.ne_of_lt hlt))).trans hresults)
      rw [hcalls, List.getElem?_append_left hlt]
      exact hcall
    | refuses hcall' hwaits _ hcalls hpending hsame =>
      have hne := ne_of_waiting hcall' hcall hwaits hnot
      refine .settled ⟨call, ?_, hnot⟩ (hpending ▸ habsent) ((hsame n hne).trans hresults)
      rw [hcalls, List.getElem?_set_ne (Ne.symm hne)]
      exact hcall
    | registers hcall' _ hcalls hpending hsame =>
      have hne := ne_of_waiting hcall' hcall rfl hnot
      refine .settled ⟨call, ?_, hnot⟩ ?_ ((hsame n).trans hresults)
      · rw [hcalls, List.getElem?_set_ne (Ne.symm hne)]
        exact hcall
      · intro p hp
        rw [hpending] at hp
        rcases List.mem_append.mp hp with hp | hp
        · exact habsent p ((Incident.spared_sublist _ _).subset hp)
        · obtain rfl := List.mem_singleton.mp hp
          exact Ne.symm hne
    | settles _ hcalls hpending _ hothers =>
      refine .settled ⟨call, hcalls ▸ hcall, hnot⟩ ?_ ((hothers n habsent).trans hresults)
      intro p hp
      rw [hpending] at hp
      exact habsent p ((Incident.spared_sublist _ _).subset hp)

theorem Fares.turn (horderly : c.Orderly) (hturn : Turn c c' is) (h : c.Fares seq n verdict) :
    c'.Fares seq n (verdict.or (is.findSome? (Incident.verdict seq))) := by
  cases h with
  | pends hmem => exact Fares.turn_pending horderly hturn hmem
  | settled hcall habsent hresults =>
    exact (Fares.settled hcall habsent hresults).turn_settled hturn

/-- **A call fares as the first verdict says**, also if it comes only in the run. -/
theorem Fares.run (horderly : c.Orderly) (h : c.Fares seq n verdict) {actions : List Action}
    (hrun : c.run actions = some c') :
    c'.Fares seq n
      (verdict.or ((c.incidents actions).findSome? (Incident.verdict seq))) := by
  refine Run.induct
    (P := fun as c' => c'.Fares seq n
      (verdict.or ((c.incidents as).findSome? (Incident.verdict seq)))) ?_ ?_ actions c' hrun
  · rw [incidents, Run.log_nil, List.findSome?_nil, Option.or_none]
    exact h
  · intro as m a c' hm hfares hstep
    have hm' : m.Orderly := horderly.run hm
    rw [incidents, Run.log_concat hm hstep, List.findSome?_append, ← Option.or_assoc]
    exact hfares.turn hm' (hm'.turn_of_step hstep)

/-- **A pending call fares as the first verdict on its number says.** -/
theorem fares_of_run (horderly : c.Orderly) (hmem : (seq, n) ∈ c.pending) {actions : List Action}
    (hrun : c.run actions = some c') :
    c'.Fares seq n ((c.incidents actions).findSome? (Incident.verdict seq)) :=
  (Fares.pends hmem).run horderly hrun

/-- What there is to say of a pending call after a run. -/
theorem Fares.results (horderly : c.Orderly) (h : c.Fares seq n verdict) :
    c.resultsOf n = verdict.getD [] ∧ ((seq, n) ∈ c.pending ↔ verdict = none) := by
  cases h with
  | pends hmem =>
    obtain ⟨a, -, -, -, hnone⟩ := horderly.entered _ hmem
    exact ⟨hnone, iff_of_true hmem rfl⟩
  | settled _ habsent hresults =>
    exact ⟨hresults, iff_of_false (fun hmem => habsent _ hmem rfl) nofun⟩

end Client

end WireCall
