import WireCall.Proofs.Client.Books
import WireCall.Proofs.Client.Rounds

/-!
# Every call is completed exactly once

Some things about a client stay for good (`Client.Later`): its calls keep their methods and, once
they have them, their numbers, and what is completed stays completed. Together with the books this
says how a call can stand (`Client.Standing`). The main statement is `Client.calls_complete_once`:
whatever happens to a client, every call waits, is pending or has one result, and the table stays
empty once the client has come to its end.

The next number is above those of the pending calls until the last number has been given out; then
it is 0 (`Client.next_below_pending`).
-/

namespace WireCall

namespace Client

/-! ## What stays -/

/-- What a step leaves as it is: a call that does not wait any longer, and so its number; the
completions there have been; and that the client has come to its end. -/
structure Later (c c' : Client) : Prop where
  calls : ∀ {n : Nat} {a : Call}, c.calls[n]? = some a →
    ∃ b, c'.calls[n]? = some b ∧ b.method = a.method ∧ (a.waiting = none → b = a)
  completions : c.completions <+: c'.completions
  lost : c.lost = true → c'.lost = true

namespace Later

variable {c c' : Client}

theorem refl (c : Client) : Later c c where
  calls := fun ha => ⟨_, ha, rfl, fun _ => rfl⟩
  completions := List.prefix_rfl
  lost := id

theorem trans {c'' : Client} (h : Later c c') (h' : Later c' c'') : Later c c'' where
  calls := by
    intro n a ha
    obtain ⟨b, hb, hmethod, hstays⟩ := h.calls ha
    obtain ⟨d, hd, hmethod', hstays'⟩ := h'.calls hb
    refine ⟨d, hd, hmethod'.trans hmethod, ?_⟩
    intro hw
    obtain rfl := hstays hw
    exact hstays' hw
  completions := h.completions.trans h'.completions
  lost := fun hl => h'.lost (h.lost hl)

/-- The calls stay, or one more is issued. -/
theorem of_prefix (hcalls : c.calls <+: c'.calls) (hcompletions : c.completions <+: c'.completions)
    (hlost : c.lost = true → c'.lost = true) : Later c c' where
  calls := by
    intro n a ha
    obtain ⟨new, hnew⟩ := hcalls
    refine ⟨a, ?_, rfl, fun _ => rfl⟩
    rw [← hnew, List.getElem?_append_left (List.getElem?_eq_some_iff.mp ha).1]
    exact ha
  completions := hcompletions
  lost := hlost

/-- A call that waits does so no longer. -/
theorem of_set {method : String} {seq seq' : UInt64} {body : Bytes} {n : Nat}
    (hcall : c.calls[n]? = some ⟨method, seq, some body⟩)
    (hcalls : c'.calls = c.calls.set n ⟨method, seq', none⟩)
    (hcompletions : c.completions <+: c'.completions) (hlost : c'.lost = c.lost) : Later c c' where
  calls := by
    intro m a ha
    rw [hcalls]
    by_cases hm : n = m
    · subst hm
      rw [hcall] at ha
      obtain rfl := Option.some.inj ha
      refine ⟨_, List.getElem?_set_self (List.getElem?_eq_some_iff.mp hcall).1, rfl, nofun⟩
    · exact ⟨a, (List.getElem?_set_ne hm).trans ha, rfl, fun _ => rfl⟩
  completions := hcompletions
  lost := fun hl => hlost.trans hl

theorem abort (c : Client) (seq : UInt64) (e : WireError) : Later c (c.abort seq e) := by
  obtain ⟨failed, habort⟩ := exists_abort c seq e
  rw [habort]
  exact of_prefix List.prefix_rfl (List.prefix_append _ _) fun _ => rfl

theorem step {a : Action} (hstep : c.step a = some c') : Later c c' := by
  -- most steps leave the calls, the completions and the end of the client alone
  have alone : ∀ {d : Client}, d.calls = c.calls → d.completions = c.completions →
      d.lost = c.lost → Later c d := by
    intro d hcalls hcompletions hlost
    exact of_prefix (hcalls ▸ List.prefix_rfl) (hcompletions ▸ List.prefix_rfl) fun hl => hlost ▸ hl
  cases move_of_step hstep with
  | issues => exact of_prefix (List.prefix_append _ _) List.prefix_rfl id
  | misissues => exact of_prefix (List.prefix_append _ _) (List.prefix_append _ _) id
  | registers _ hcall => exact of_set hcall rfl List.prefix_rfl rfl
  | refuses _ hcall => exact of_set hcall rfl (List.prefix_append _ _) rfl
  | @breaks _ _ _ writer =>
    have hafter : Later c { c with writer, holder := none } := alone rfl rfl rfl
    exact hafter.trans (abort _ _ _)
  | hears => exact of_prefix List.prefix_rfl (List.prefix_append _ _) id
  | tells => exact of_prefix List.prefix_rfl (List.prefix_append _ _) fun _ => rfl
  | _ => exact alone rfl rfl rfl

theorem run {actions : List Action} (hrun : c.run actions = some c') : Later c c' :=
  Run.keeps (P := Later c) (fun h hstep => h.trans (step hstep)) (refl c) hrun

theorem length_le (h : Later c c') : c.calls.length ≤ c'.calls.length := by
  apply Nat.le_of_not_lt
  intro hlt
  obtain ⟨b, hb, -⟩ := h.calls (List.getElem?_eq_getElem hlt)
  exact Nat.lt_irrefl _ (List.getElem?_eq_some_iff.mp hb).1

end Later

/-- **A run keeps the books**, as long as the numbers do not run out. -/
theorem Coherent.run {c c' : Client} (h : c.Coherent) {actions : List Action}
    (hrun : c.run actions = some c') (hfew : c'.calls.length < numbers) : c'.Coherent := by
  refine Run.induct (P := fun _ d => d.calls.length < numbers → d.Coherent) (fun _ => h) ?_
    actions c' hrun hfew
  intro _ m a d _ hm hstep hd
  have hlen : m.calls.length < numbers := Nat.lt_of_le_of_lt (Later.step hstep).length_le hd
  exact (hm hlen).step hstep hlen

/-! ## How a call stands -/

/-- The numbers that have been given out. A call keeps its number (`Later.calls`). -/
def assigned (c : Client) : List UInt64 := (c.calls.map Call.seq).filter fun seq => seq ≠ 0

/-- **How a call stands.** -/
inductive Standing (c : Client) (n : Nat) (call : Call) : Prop
  /-- it is not registered yet -/
  | waits (hseq : call.seq = 0) (hwaits : call.waiting.isSome) (habsent : ∀ p ∈ c.pending, p.2 ≠ n)
      (hnone : c.resultsOf n = [])
  /-- it is in the table, and not completed -/
  | pends (hmem : (call.seq, n) ∈ c.pending) (hnone : c.resultsOf n = [])
  /-- it is completed, once, and not in the table -/
  | done (hwaits : call.waiting = none) (habsent : ∀ p ∈ c.pending, p.2 ≠ n)
      (hone : ∃ r, c.resultsOf n = [r])

theorem length_resultsOf (c : Client) (n : Nat) :
    (c.resultsOf n).length = c.completions.countP fun p => p.1 = n := by
  rw [resultsOf, List.length_map, List.countP_eq_length_filter]

namespace Coherent

variable {c : Client}

theorem assigned_nodup (h : c.Coherent) : c.assigned.Nodup := by
  rw [assigned, List.Nodup, List.pairwise_filter, List.pairwise_iff_getElem]
  intro i j hi hj hlt hne _ heq
  simp only [List.getElem_map, decide_eq_true_eq] at hne heq
  rw [List.length_map] at hi hj
  have := h.distinct (List.getElem?_eq_getElem hi) (List.getElem?_eq_getElem hj) hne heq
  exact Nat.ne_of_lt hlt this

theorem key_assigned (h : c.Coherent) {p : UInt64 × Nat} (hp : p ∈ c.pending) :
    p.1 ∈ c.assigned := by
  obtain ⟨hne, call, hcall, hkey⟩ := h.keyed p hp
  refine List.mem_filter.mpr ⟨?_, decide_eq_true hne⟩
  exact hkey ▸ List.mem_map_of_mem (mem_calls hcall)

/-- A number that has been given out is below the next one. The next one is 0 only when there is
none left. -/
theorem key_below (h : c.Coherent) (hfew : c.calls.length < numbers) {p : UInt64 × Nat}
    (hp : p ∈ c.pending) : p.1 < c.nextSeq ∨ c.registered + 1 = numbers := by
  obtain ⟨-, call, hcall, hkey⟩ := h.keyed p hp
  have hle : p.1.toNat ≤ c.registered := hkey ▸ h.bounded call (mem_calls hcall)
  have hregistered : c.registered ≤ c.calls.length := List.countP_le_length
  rcases Nat.lt_or_ge (c.registered + 1) numbers with hlt | hge
  · left
    rw [UInt64.lt_iff_toNat_lt, h.next, UInt64.toNat_ofNat_of_lt' hlt]
    exact Nat.lt_succ_of_le hle
  · right
    omega

theorem standing (h : c.Coherent) {n : Nat} {call : Call} (hcall : c.calls[n]? = some call) :
    c.Standing n call := by
  have htally := h.tally n
  rw [← length_resultsOf] at htally
  have absent : c.pending.countP (fun p => p.2 = n) = 0 → ∀ p ∈ c.pending, p.2 ≠ n := by
    intro hzero p hp
    simpa using List.countP_eq_zero.mp hzero p hp
  cases hw : call.waiting with
  | some body =>
    have hwaits : call.waiting.isSome := by rw [hw]; rfl
    rw [due_of_waiting hcall hwaits] at htally
    refine .waits (h.unnumbered _ (mem_calls hcall) hwaits) hwaits (absent (by omega)) ?_
    exact List.eq_nil_of_length_eq_zero (by omega)
  | none =>
    have hdue : c.due n = 1 := by simp [due, hcall, hw]
    rw [hdue] at htally
    rcases Nat.eq_zero_or_pos (c.pending.countP fun p => p.2 = n) with hzero | hpos
    · exact .done hw (absent hzero) (List.length_eq_one_iff.mp (by omega))
    · obtain ⟨p, hp, hpn⟩ := List.countP_pos_iff.mp hpos
      obtain ⟨-, call', hcall', hkey⟩ := h.keyed p hp
      obtain rfl : p.2 = n := by simpa using hpn
      rw [hcall] at hcall'
      obtain rfl := Option.some.inj hcall'
      refine .pends ?_ (List.eq_nil_of_length_eq_zero (by omega))
      rwa [hkey]

end Coherent

/-! ## The table stays empty -/

/-- The steps that empty the table: the loop tells the pending calls, or a write fails. -/
inductive Drains (c : Client) : Action → Prop
  | terminate : Drains c .terminate
  | write {n : Nat} {body : Bytes} {call : Call} {e : WireError}
      (hholder : c.holder = some (n, body)) (hcall : c.calls[n]? = some call)
      (hfails : (c.writer.writeEncoded ⟨call.method, call.seq, ""⟩ body).1 = .error e) :
      Drains c .write

theorem Drains.lost {c c' : Client} {a : Action} (h : c.Drains a) (hstep : c.step a = some c') :
    c'.lost = true := by
  cases h with
  | terminate =>
    cases move_of_step hstep
    rfl
  | write hholder hcall hfails =>
    cases move_of_step hstep with
    | writes hholder' hcall' hwrite =>
      obtain ⟨rfl, rfl⟩ := Prod.mk.inj (Option.some.inj (hholder.symm.trans hholder'))
      obtain rfl := Option.some.inj (hcall.symm.trans hcall')
      rw [hwrite] at hfails
      cases hfails
    | @breaks _ _ call writer e =>
      obtain ⟨failed, habort⟩ := exists_abort { c with writer, holder := none } call.seq e
      rw [habort]

/-! ## The main statement -/

/-- **Every call is completed exactly once.** Whatever happens to a client that has been connected,
in whatever order, as long as there are fewer calls than numbers:

- no two calls have got the same number;
- what is in the table is under a number that has been given out, and which is below the next one,
  unless the last number has been given out and the next one is 0;
- each call waits for its registration, or is in the table and not completed, or is not in the table
  and completed once;
- the table stays empty once the loop or a write that failed has emptied it;
- once the loop has ended and no call waits any longer, each call has its one result. -/
theorem calls_complete_once {o : Options} {source : Source} {sink sink' : Sink} {c₀ c : Client}
    {actions : List Action} (hconnect : connect o source sink = (.ok c₀, sink'))
    (hrun : c₀.run actions = some c) (hfew : c.calls.length < numbers) :
    c.assigned.Nodup ∧
    (∀ p ∈ c.pending, p.1 ∈ c.assigned ∧ (p.1 < c.nextSeq ∨ c.registered + 1 = numbers)) ∧
    (∀ n call, c.calls[n]? = some call → c.Standing n call) ∧
    (∀ before a after c₁ c₂, actions = before ++ a :: after → c₀.run before = some c₁ →
      c₁.step a = some c₂ → c₁.Drains a → c₂.pending = [] ∧ c.pending = []) ∧
    (c.receiving = .ended → (∀ call ∈ c.calls, call.waiting = none) →
      ∀ n < c.calls.length, ∃ r, c.resultsOf n = [r]) := by
  have hinit : c₀.Coherent := by
    simp only [connect] at hconnect
    split at hconnect
    · cases hconnect
    · obtain ⟨rfl, -⟩ : _ ∧ _ := by simpa using hconnect
      exact Coherent.init _ _
  have h := hinit.run hrun hfew
  refine ⟨h.assigned_nodup, fun p hp => ⟨h.key_assigned hp, h.key_below hfew hp⟩,
    fun n call hcall => h.standing hcall, ?_, ?_⟩
  · rintro before a after c₁ c₂ rfl hbefore hstep hdrains
    obtain ⟨m, hm, hafter⟩ := Run.append_eq_some.mp hrun
    obtain rfl : c₁ = m := Option.some.inj (hbefore.symm.trans hm)
    have hafter : c₂.run after = some c := by
      rw [List.foldlM_cons, hstep] at hafter
      exact hafter
    have hlater := Later.run hafter
    have hlost := hdrains.lost hstep
    have hinter : c₂.Coherent := by
      have hlen := Nat.lt_of_le_of_lt hlater.length_le hfew
      have hlen₁ := Nat.lt_of_le_of_lt (Later.step hstep).length_le hlen
      exact (hinit.run hbefore hlen₁).step hstep hlen₁
    exact ⟨hinter.drained hlost, h.drained (hlater.lost hlost)⟩
  · intro hended hwaiting n hn
    have hempty := h.drained (h.ended hended)
    cases h.standing (List.getElem?_eq_getElem hn) with
    | waits _ hwaits =>
      rw [hwaiting _ (List.getElem_mem hn)] at hwaits
      cases hwaits
    | pends hmem =>
      rw [hempty] at hmem
      cases hmem
    | done _ _ hone => exact hone

/-- Two calls, of which one is written and not answered before the client is closed, and the other
one comes too late. -/
def closingEarly : List Action :=
  [.issue "Calc.Sum" ⟨.unit, ()⟩, .issue "Calc.Fail" ⟨.text, "why"⟩, .register 1, .write, .close,
    .noticeClose, .register 0, .terminate]

theorem calls_complete_once_closing :
    ∃ c₀ sink c, connect .default {} { behaviour := .faithful } = (.ok c₀, sink) ∧
      c₀.run closingEarly = some c ∧ (∃ r, c.resultsOf 0 = [r]) ∧ ∃ r, c.resultsOf 1 = [r] := by
  have hends : ((connect .default {} { behaviour := .faithful }).1.toOption.bind
      (run · closingEarly)).any (fun c => c.receiving matches .ended && decide (c.calls.length = 2)
        && c.calls.all (·.waiting.isNone)) = true := by decide +kernel
  cases hconnect : connect .default {} { behaviour := .faithful } with
  | mk r sink =>
  rw [hconnect] at hends
  cases r with
  | error e => cases hends
  | ok c₀ =>
  cases hrun : c₀.run closingEarly with
  | none => simp [Except.toOption, hrun] at hends
  | some c =>
  simp only [Except.toOption, Option.bind_some, hrun, Option.any_some, Bool.and_eq_true,
    decide_eq_true_eq, List.all_eq_true, Option.isNone_iff_eq_none] at hends
  obtain ⟨⟨hended, htwo⟩, hwaiting⟩ := hends
  have hall := (calls_complete_once hconnect hrun (by rw [htwo]; decide)).2.2.2.2
    (by revert hended; cases c.receiving <;> simp) hwaiting
  exact ⟨c₀, sink, c, rfl, hrun, hall 0 (by omega), hall 1 (by omega)⟩

/-- **The next number may be below that of a pending call.** There are fewer calls than numbers, but
the last number has been given out, and the next one is 0. -/
theorem next_below_pending :
    ∃ c₀ sink c, connect .default {} { behaviour := .faithful } = (.ok c₀, sink) ∧
      c₀.run (rounds (numbers - 1)) = some c ∧ c.calls.length < numbers ∧ c.nextSeq = 0 ∧
      ∃ p ∈ c.pending, ¬ p.1 < c.nextSeq := by
  obtain ⟨c₀, sink, c, hconnect, hrun, h⟩ := exists_rounds (numbers - 1)
  have hnext : c.nextSeq = 0 := h.next.trans (by decide +kernel)
  refine ⟨c₀, sink, c, hconnect, hrun, ?_, hnext, _, h.last (numbers - 2) (by decide +kernel), ?_⟩
  · rw [h.length]
    decide +kernel
  · rw [hnext]
    exact UInt64.not_lt_zero

end Client

end WireCall
