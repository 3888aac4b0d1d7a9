import WireCall.Proofs.Client.Moves
import WireCall.Proofs.Client.Table
import WireCall.Proofs.Run

/-!
# The books of a client

Entries leave the table of pending calls on four ways: by a response, by a write that failed, by the
end of the connection, and a call may fail before it ever gets there. The *books* of a client
(`Client.Coherent`) say that all the same no call is lost and none is completed twice: for each call
the entries in the table and the completions together are one, or none as long as the call waits for
the right to write (`Client.Coherent.tally`). They also say which numbers have been given out.

Each step keeps the books (`Client.Coherent.step`), as long as the numbers do not run out.
-/

namespace WireCall

namespace Client

/-! ## What is counted -/

/-- How many calls have got a number. -/
def registered (c : Client) : Nat := c.calls.countP fun call => call.seq ≠ 0

/-- The results with which a call has been completed. -/
def resultsOf (c : Client) (n : Nat) : List (Except CallError Bytes) :=
  (c.completions.filter fun p => p.1 = n).map Prod.snd

/-- How many entries and results there have to be for a call. -/
def due (c : Client) (n : Nat) : Nat :=
  match c.calls[n]? with
  | some call => if call.waiting.isSome then 0 else 1
  | none => 0

/-- How many numbers there are, one of them being no number. -/
def numbers : Nat := 0x10000000000000000

/-- **The books of a client.** -/
structure Coherent (c : Client) : Prop where
  /-- the numbers that have been given out are those below the next one -/
  next : c.nextSeq = UInt64.ofNat (c.registered + 1)
  bounded : ∀ call ∈ c.calls, call.seq.toNat ≤ c.registered
  distinct : ∀ {m n : Nat} {a b : Call}, c.calls[m]? = some a → c.calls[n]? = some b → a.seq ≠ 0 →
    a.seq = b.seq → m = n
  /-- a call that waits has no number yet -/
  unnumbered : ∀ call ∈ c.calls, call.waiting.isSome → call.seq = 0
  /-- a pending call is found under its number -/
  keyed : ∀ p ∈ c.pending, p.1 ≠ 0 ∧ ∃ call, c.calls[p.2]? = some call ∧ call.seq = p.1
  keys : (c.pending.map Prod.fst).Nodup
  /-- no call is lost, and none is completed twice -/
  tally : ∀ n, c.pending.countP (fun p => p.2 = n) + c.completions.countP (fun p => p.1 = n) =
    c.due n
  drained : c.lost = true → c.pending = []
  ended : c.receiving = .ended → c.lost = true

namespace Coherent

variable {c : Client}

theorem mem_calls {call : Call} {n : Nat} (h : c.calls[n]? = some call) : call ∈ c.calls :=
  List.mem_of_getElem? h

/-- A number tells which call it has been given to. -/
theorem eq_iff_seq (h : c.Coherent) {m n : Nat} {a b : Call} (ha : c.calls[m]? = some a)
    (hb : c.calls[n]? = some b) (hne : a.seq ≠ 0) : m = n ↔ a.seq = b.seq := by
  constructor
  · rintro rfl
    rw [Option.some.inj (ha.symm.trans hb)]
  · intro heq
    exact h.distinct ha hb hne heq

/-- A client that has just been connected. -/
theorem init (r : Reader) (w : Writer) : Coherent { reader := r, writer := w } where
  next := rfl
  bounded := fun _ h => absurd h List.not_mem_nil
  distinct := fun h => by simp at h
  unnumbered := fun _ h => absurd h List.not_mem_nil
  keyed := fun _ h => absurd h List.not_mem_nil
  keys := List.nodup_nil
  tally := fun n => by simp [due]
  drained := fun _ => rfl
  ended := fun h => by cases h

/-! ## Issuing and registering -/

/-- A call without a number is added. It is completed at once, or not at all. -/
theorem added (h : c.Coherent) {call : Call} (hseq : call.seq = 0)
    {completions : List (Nat × Except CallError Bytes)}
    (hcount : ∀ n, completions.countP (fun p => p.1 = n) = c.completions.countP (fun p => p.1 = n)
      + if n = c.calls.length ∧ ¬ call.waiting.isSome then 1 else 0) :
    Coherent { c with calls := c.calls ++ [call], completions } where
  next := by simpa [registered, hseq] using h.next
  bounded := by
    intro a ha
    simp only [registered, List.countP_append]
    rcases List.mem_append.mp ha with ha | ha
    · exact Nat.le_add_right_of_le (h.bounded a ha)
    · obtain rfl := List.mem_singleton.mp ha
      simp [hseq]
  distinct := by
    intro m n a b hm hn hne heq
    -- neither of the two is the new call, which has no number
    have old : ∀ {i : Nat} {x : Call}, (c.calls ++ [call])[i]? = some x → x.seq ≠ 0 →
        c.calls[i]? = some x := by
      intro i x hi hx
      rcases getElem?_of_concat hi with hi | ⟨-, rfl⟩
      · exact hi
      · exact absurd hseq hx
    exact h.distinct (old hm hne) (old hn (heq ▸ hne)) hne heq
  unnumbered := by
    intro a ha hw
    rcases List.mem_append.mp ha with ha | ha
    · exact h.unnumbered a ha hw
    · obtain rfl := List.mem_singleton.mp ha
      exact hseq
  keyed := by
    intro p hp
    obtain ⟨hne, a, ha, hkey⟩ := h.keyed p hp
    exact ⟨hne, a, List.getElem?_append_left (List.getElem?_eq_some_iff.mp ha).1 ▸ ha, hkey⟩
  keys := h.keys
  tally := by
    intro n
    have htally := h.tally n
    rw [hcount, ← Nat.add_assoc, htally]
    rcases Nat.lt_trichotomy n c.calls.length with hlt | rfl | hgt
    · simp [due, List.getElem?_append_left hlt, Nat.ne_of_lt hlt]
    · cases hw : call.waiting <;> simp [due, hw]
    · have hnone : c.calls[n]? = none := List.getElem?_eq_none (Nat.le_of_lt hgt)
      have hnone' : (c.calls ++ [call])[n]? = none := by
        apply List.getElem?_eq_none
        rw [List.length_append]
        exact hgt
      simp [due, hnone, hnone', Nat.ne_of_gt hgt]
  drained := h.drained
  ended := h.ended

/-- A call that waits leaves no trace in the table or among the completions. -/
theorem due_of_waiting {call : Call} {n : Nat} (hcall : c.calls[n]? = some call)
    (hw : call.waiting.isSome) : c.due n = 0 := by
  simp [due, hcall, hw]

/-- A call that has waited does so no longer, and has a number or not. Everything else about the
calls stays. -/
theorem due_set (call' : Call) {call : Call} {n : Nat} (hcall : c.calls[n]? = some call)
    (hw : call.waiting.isSome) (hw' : call'.waiting = none) (m : Nat) :
    due { c with calls := c.calls.set n call' } m = c.due m + if m = n then 1 else 0 := by
  have hlt := (List.getElem?_eq_some_iff.mp hcall).1
  by_cases hm : m = n
  · subst hm
    rw [due_of_waiting hcall hw]
    simp [due, hlt, hw']
  · simp [due, List.getElem?_set_ne (Ne.symm hm), hm]

/-- A call that waits is not the one of an entry of the table. -/
theorem ne_of_pending (h : c.Coherent) {call : Call} {n : Nat} (hcall : c.calls[n]? = some call)
    (hw : call.waiting.isSome) {p : UInt64 × Nat} (hp : p ∈ c.pending) : n ≠ p.2 := by
  rintro rfl
  obtain ⟨hne, a, ha, hkey⟩ := h.keyed p hp
  obtain rfl := Option.some.inj (hcall.symm.trans ha)
  exact hne (hkey.symm.trans (h.unnumbered call (mem_calls hcall) hw))

/-- A call that comes too late fails without a number. -/
theorem refused (h : c.Coherent) {method : String} {seq : UInt64} {body : Bytes} {n : Nat}
    (hcall : c.calls[n]? = some ⟨method, seq, some body⟩) (e : CallError) :
    Coherent (complete { c with calls := c.calls.set n ⟨method, 0, none⟩ } n (.error e)) := by
  have hlt := (List.getElem?_eq_some_iff.mp hcall).1
  have hget : c.calls[n] = ⟨method, seq, some body⟩ := (List.getElem?_eq_some_iff.mp hcall).2
  have hseq : seq = 0 := h.unnumbered _ (mem_calls hcall) rfl
  subst hseq
  have hreg : registered (complete { c with calls := c.calls.set n ⟨method, 0, none⟩ } n (.error e))
      = c.registered := by
    simp [registered, complete, List.countP_set hlt, hget]
  have hset : ∀ {m : Nat} {a : Call}, (c.calls.set n ⟨method, 0, none⟩)[m]? = some a → a.seq ≠ 0 →
      c.calls[m]? = some a := by
    intro m a hm hne
    rcases getElem?_of_set hm with ⟨-, rfl⟩ | ⟨-, hm⟩
    · exact absurd rfl hne
    · exact hm
  refine ⟨hreg ▸ h.next, ?_, ?_, ?_, ?_, h.keys, ?_, h.drained, h.ended⟩
  · intro a ha
    rw [hreg]
    rcases List.mem_or_eq_of_mem_set ha with ha | rfl
    · exact h.bounded a ha
    · exact Nat.zero_le _
  · intro m k a b hm hk hne heq
    exact h.distinct (hset hm hne) (hset hk (heq ▸ hne)) hne heq
  · intro a ha hw
    rcases List.mem_or_eq_of_mem_set ha with ha | rfl
    · exact h.unnumbered a ha hw
    · rfl
  · intro p hp
    obtain ⟨hne, a, ha, hkey⟩ := h.keyed p hp
    exact ⟨hne, a, (List.getElem?_set_ne (h.ne_of_pending hcall rfl hp)).trans ha, hkey⟩
  · intro m
    refine Eq.trans ?_ (due_set _ hcall rfl rfl m).symm
    simp only [complete, List.countP_append, ← Nat.add_assoc, h.tally m]
    simp [eq_comm]

/-- As long as the calls are fewer than the numbers, the next number is fresh. -/
theorem toNat_nextSeq (h : c.Coherent) {call : Call} {n : Nat} (hcall : c.calls[n]? = some call)
    (hw : call.waiting.isSome) (hfew : c.calls.length < numbers) :
    c.nextSeq.toNat = c.registered + 1 := by
  have hle : c.registered ≤ c.calls.length := List.countP_le_length
  have hne : c.registered ≠ c.calls.length := by
    intro heq
    have := List.countP_eq_length.mp heq call (mem_calls hcall)
    rw [h.unnumbered call (mem_calls hcall) hw] at this
    simp at this
  rw [h.next]
  refine UInt64.toNat_ofNat_of_lt' (Nat.lt_of_le_of_lt ?_ hfew)
  exact Nat.lt_of_le_of_ne hle hne

/-- So no call has it. -/
theorem nextSeq_fresh (h : c.Coherent) (hnext : c.nextSeq.toNat = c.registered + 1) {call : Call}
    (hcall : call ∈ c.calls) : call.seq ≠ c.nextSeq := by
  intro heq
  have := h.bounded call hcall
  rw [heq, hnext] at this
  omega

/-- A call that comes in time gets the next number and is pending under it. -/
theorem entered (h : c.Coherent) {method : String} {seq : UInt64} {body : Bytes} {n : Nat}
    (hcall : c.calls[n]? = some ⟨method, seq, some body⟩) (hfew : c.calls.length < numbers)
    (hlost : c.lost = false) {holder : Option (Nat × Bytes)} :
    Coherent
      { c with
        calls := c.calls.set n ⟨method, c.nextSeq, none⟩
        nextSeq := c.nextSeq + 1
        pending := without c.pending c.nextSeq ++ [(c.nextSeq, n)]
        holder } := by
  have hlt := (List.getElem?_eq_some_iff.mp hcall).1
  have hget : c.calls[n] = ⟨method, seq, some body⟩ := (List.getElem?_eq_some_iff.mp hcall).2
  have hseq : seq = 0 := h.unnumbered _ (mem_calls hcall) rfl
  subst hseq
  have hnext := h.toNat_nextSeq hcall rfl hfew
  have hnonzero : c.nextSeq ≠ 0 := by
    intro h0
    rw [h0] at hnext
    simp at hnext
  have hkeys : ∀ p ∈ c.pending, p.1 ≠ c.nextSeq := by
    intro p hp
    obtain ⟨-, a, ha, hkey⟩ := h.keyed p hp
    exact hkey ▸ h.nextSeq_fresh hnext (mem_calls ha)
  rw [without_eq_self hkeys]
  have hreg : (c.calls.set n ⟨method, c.nextSeq, none⟩).countP (fun call => call.seq ≠ 0) =
      c.registered + 1 := by
    simp [registered, List.countP_set hlt, hget, hnonzero]
  refine ⟨?_, ?_, ?_, ?_, ?_, ?_, ?_, ?_, ?_⟩
  · simp only [registered]
    rw [hreg, h.next]
    simp
  · intro a ha
    simp only [registered]
    rw [hreg]
    rcases List.mem_or_eq_of_mem_set ha with ha | rfl
    · exact Nat.le_succ_of_le (h.bounded a ha)
    · exact Nat.le_of_eq hnext
  · intro m k a b hm hk hne heq
    rcases getElem?_of_set hm with ⟨rfl, rfl⟩ | ⟨-, hm⟩
    · rcases getElem?_of_set hk with ⟨rfl, -⟩ | ⟨-, hk⟩
      · rfl
      · exact absurd heq.symm (h.nextSeq_fresh hnext (mem_calls hk))
    · rcases getElem?_of_set hk with ⟨-, rfl⟩ | ⟨-, hk⟩
      · exact absurd heq (h.nextSeq_fresh hnext (mem_calls hm))
      · exact h.distinct hm hk hne heq
  · intro a ha hw
    rcases List.mem_or_eq_of_mem_set ha with ha | rfl
    · exact h.unnumbered a ha hw
    · cases hw
  · intro p hp
    rcases List.mem_append.mp hp with hp | hp
    · obtain ⟨hne, a, ha, hkey⟩ := h.keyed p hp
      exact ⟨hne, a, (List.getElem?_set_ne (h.ne_of_pending hcall rfl hp)).trans ha, hkey⟩
    · obtain rfl := List.mem_singleton.mp hp
      exact ⟨hnonzero, _, List.getElem?_set_self hlt, rfl⟩
  · rw [List.map_append, List.nodup_append]
    refine ⟨h.keys, by simp, ?_⟩
    intro a ha b hb
    obtain ⟨p, hp, rfl⟩ := List.mem_map.mp ha
    obtain rfl := List.mem_singleton.mp hb
    exact hkeys p hp
  · intro m
    have hdue := due_set ⟨method, c.nextSeq, none⟩ hcall rfl rfl m
    refine Eq.trans ?_ hdue.symm
    rw [List.countP_append, Nat.add_right_comm, h.tally m]
    simp [eq_comm]
  · intro hl
    rw [hlost] at hl
    cases hl
  · exact h.ended

/-! ## Leaving the table -/

/-- Entries of the table become completions. -/
theorem settled (h : c.Coherent) {table : List (UInt64 × Nat)}
    {completions : List (Nat × Except CallError Bytes)} (hsub : table.Sublist c.pending)
    (htally : ∀ n, table.countP (fun p => p.2 = n) + completions.countP (fun p => p.1 = n) =
      c.pending.countP (fun p => p.2 = n) + c.completions.countP (fun p => p.1 = n)) :
    Coherent { c with pending := table, completions } where
  next := h.next
  bounded := h.bounded
  distinct := h.distinct
  unnumbered := h.unnumbered
  keyed := fun p hp => h.keyed p (hsub.subset hp)
  keys := h.keys.sublist (hsub.map Prod.fst)
  tally := fun n => (htally n).trans (h.tally n)
  drained := by
    intro hl
    have := h.drained hl
    rw [this] at hsub
    exact List.sublist_nil.mp hsub
  ended := h.ended

/-- What is counted at a pending call and at the others. -/
theorem countP_pending (h : c.Coherent) {seq : UInt64} {n : Nat} (hn : c.pending? seq = some n)
    (m : Nat) :
    c.pending.countP (fun p => p.2 = m) =
      (without c.pending seq).countP (fun p => p.2 = m) + if n = m then 1 else 0 := by
  rw [(perm_without h.keys (mem_of_pending? hn)).countP_eq, List.countP_cons]
  simp

/-- One pending call is completed. -/
theorem completed (h : c.Coherent) {seq : UInt64} {n : Nat} (hn : c.pending? seq = some n)
    (r : Except CallError Bytes) :
    Coherent (complete { c with pending := without c.pending seq } n r) := by
  apply h.settled without_sublist
  intro m
  rw [h.countP_pending hn m, List.countP_append]
  simp only [List.countP_singleton, decide_eq_true_eq]
  omega

/-- All calls of the table are completed, and the client has come to its end. -/
theorem emptied (h : c.Coherent) {completions : List (Nat × Except CallError Bytes)}
    (htally : ∀ n, completions.countP (fun p => p.1 = n) =
      c.completions.countP (fun p => p.1 = n) + c.pending.countP (fun p => p.2 = n)) :
    Coherent { c with pending := [], completions, lost := true } where
  next := h.next
  bounded := h.bounded
  distinct := h.distinct
  unnumbered := h.unnumbered
  keyed := fun _ hp => absurd hp List.not_mem_nil
  keys := List.nodup_nil
  tally := by
    intro n
    refine Eq.trans ?_ (h.tally n)
    rw [List.countP_nil, Nat.zero_add, Nat.add_comm]
    exact htally n
  drained := fun _ => rfl
  ended := fun _ => rfl

/-- A client whose books agree with those of another one in everything that they record. -/
theorem congr {c' : Client} (h : c.Coherent) (hcalls : c'.calls = c.calls)
    (hnext : c'.nextSeq = c.nextSeq) (hpending : c'.pending = c.pending)
    (hcompletions : c'.completions = c.completions) (hlost : c'.lost = c.lost)
    (hended : c'.receiving = .ended → c'.lost = true) : c'.Coherent where
  next := by simpa [registered, hcalls, hnext] using h.next
  bounded := by simpa [registered, hcalls] using h.bounded
  distinct := fun hm hn => h.distinct (hcalls ▸ hm) (hcalls ▸ hn)
  unnumbered := by simpa only [hcalls] using h.unnumbered
  keyed := by simpa only [hcalls, hpending] using h.keyed
  keys := by simpa only [hpending] using h.keys
  tally := by simpa only [due, hcalls, hpending, hcompletions] using h.tally
  drained := by simpa only [hlost, hpending] using h.drained
  ended := hended

theorem countP_failed (table : List (UInt64 × Nat)) (e : CallError) (n : Nat) :
    (table.map fun p => (p.2, (.error e : Except CallError Bytes))).countP (fun p => p.1 = n) =
      table.countP fun p => p.2 = n := by
  rw [List.countP_map]
  rfl

/-- A write that failed completes its own call and all the others. -/
theorem abort (h : c.Coherent) (seq : UInt64) (e : WireError) : (c.abort seq e).Coherent := by
  simp only [Client.abort, failAll]
  split
  · rename_i n hn
    refine (h.emptied fun m => ?_).congr rfl rfl rfl rfl rfl fun _ => rfl
    simp only [complete]
    rw [h.countP_pending hn m, List.countP_append, List.countP_append, countP_failed]
    simp only [List.countP_singleton, decide_eq_true_eq, Nat.add_assoc]
  · rename_i hn
    refine (h.emptied fun m => ?_).congr rfl rfl rfl rfl rfl fun _ => rfl
    rw [without_eq_self (pending?_eq_none.mp hn), List.countP_append, countP_failed]

/-- **Each step keeps the books.** -/
theorem step (h : c.Coherent) {a : Action} {c' : Client} (hstep : c.step a = some c')
    (hfew : c.calls.length < numbers) : c'.Coherent := by
  cases move_of_step hstep with
  | issues => exact h.added rfl fun n => by simp
  | misissues =>
    apply h.added rfl
    intro n
    simp [eq_comm]
  | registers _ hcall _ hlost => exact h.entered hcall hfew hlost
  | refuses _ hcall => exact h.refused hcall .shutdown
  | @breaks _ _ _ writer =>
    have hafter : Coherent { c with writer, holder := none } := h.congr rfl rfl rfl rfl rfl h.ended
    exact hafter.abort _ _
  | fails | notices => exact h.congr rfl rfl rfl rfl rfl nofun
  | hears _ _ _ hpending =>
    exact (h.completed hpending _).congr rfl rfl rfl rfl rfl h.ended
  | tells =>
    refine (h.emptied fun m => ?_).congr rfl rfl rfl rfl rfl fun _ => rfl
    simp only [failAll]
    rw [List.countP_append, countP_failed]
  | _ => exact h.congr rfl rfl rfl rfl rfl h.ended

end Coherent

end Client

end WireCall
