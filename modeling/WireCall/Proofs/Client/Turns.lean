import Mathlib.Data.List.Nodup
import WireCall.Proofs.Client.Trace

/-!
# What settles a call

A call that is pending is settled by an *incident*: a response is read, the connection comes to its
end, or a request cannot be written. The *verdict* of an incident on a number
(`Client.Incident.verdict`) says what it means for the call that is pending under this number.

Every step of a client is a *turn* (`Client.turn_of_step`). It lets the calls alone, or one of them
is issued, refused or registered, or it settles exactly those pending calls on which its incident
has a verdict.

Nothing here depends on how many calls there are. Should the numbers run out, a number is given out
again, and a call that is still pending under it is dropped without a result.
-/

namespace WireCall

namespace Client

/-- What may settle pending calls. -/
inductive Incident where
  /-- a response is read -/
  | heard (m : Header × Bytes)
  /-- the connection comes to its end -/
  | tornDown (reason : CallError)
  /-- the request of the given number cannot be written -/
  | unwritten (own : UInt64) (e : WireError)
  /-- a number is given out -/
  | taken (seq : UInt64)

/-- **What an incident means for the call under a number**: nothing, or the results with which it
leaves the table. -/
def Incident.verdict (seq : UInt64) : Incident → Option (List (Except CallError Bytes))
  | .heard m => if m.1.seq = seq then some [Message.outcome m] else none
  | .tornDown reason => some [.error (teardownError reason)]
  | .unwritten own e => some [.error (if own = seq then .wire e else teardownError (.wire e))]
  | .taken other => if other = seq then some [] else none

/-- The entries of a table on which an incident has no verdict. -/
def Incident.spared (i : Incident) (table : List (UInt64 × Nat)) : List (UInt64 × Nat) :=
  table.filter fun p => (i.verdict p.1).isNone

theorem Incident.mem_spared {i : Incident} {table : List (UInt64 × Nat)} {p : UInt64 × Nat} :
    p ∈ i.spared table ↔ p ∈ table ∧ i.verdict p.1 = none := by
  rw [spared, List.mem_filter, Option.isNone_iff_eq_none]

theorem Incident.spared_sublist (i : Incident) (table : List (UInt64 × Nat)) :
    (i.spared table).Sublist table := List.filter_sublist

/-- The incident of a step, if there is one. -/
def incident (c : Client) : Action → List Incident
  | .register _ => if c.closing ∨ c.lost then [] else [.taken c.nextSeq]
  | .write =>
    match c.holder with
    | some (n, body) =>
      match c.calls[n]? with
      | some call =>
        match (c.writer.writeEncoded ⟨call.method, call.seq, ""⟩ body).1 with
        | .error e => [.unwritten call.seq e]
        | .ok _ => []
      | none => []
    | none => []
  | .read =>
    match c.reader.readHeader with
    | (.got h, reader) =>
      match reader.pending with
      | some body => [.heard (h, body)]
      | none => []
    | _ => []
  | .terminate =>
    match c.receiving with
    | .ending reason => [.tornDown reason]
    | _ => []
  | _ => []

theorem incident_register {c : Client} {n : Nat} (hclosing : c.closing = false)
    (hlost : c.lost = false) : c.incident (.register n) = [.taken c.nextSeq] := by
  simp [incident, hclosing, hlost]

theorem incident_write {c : Client} {n : Nat} {body : Bytes} {call : Call} {writer : Writer}
    {e : WireError} (hholder : c.holder = some (n, body)) (hcall : c.calls[n]? = some call)
    (hwrite : c.writer.writeEncoded ⟨call.method, call.seq, ""⟩ body = (.error e, writer)) :
    c.incident .write = [.unwritten call.seq e] := by
  simp only [incident, hholder, hcall, hwrite]

theorem incident_read {c : Client} {h : Header} {body : Bytes} {reader : Reader}
    (hread : c.reader.readHeader = (.got h, reader)) (hbody : reader.pending = some body) :
    c.incident .read = [.heard (h, body)] := by
  simp only [incident, hread, hbody]

/-- The pending calls are told of the end by the loop alone. -/
theorem eq_terminate_of_tornDown {c : Client} {a : Action} {reason : CallError}
    (h : .tornDown reason ∈ c.incident a) : a = .terminate := by
  cases a with
  | terminate => rfl
  | register n =>
    simp only [incident] at h
    split at h <;> simp at h
  | write | read =>
    simp only [incident] at h
    repeat' split at h
    all_goals simp at h
  | _ => cases h

/-- **The incidents of a run.** -/
def incidents (c : Client) (actions : List Action) : List Incident :=
  Run.log step incident c actions

variable {c c' : Client} {is : List Incident}

/-! ## Turns -/

/-- **How a step changes the calls, the table and the results**, by the incident in it. -/
inductive Turn (c c' : Client) : List Incident → Prop
  | still (hcalls : c'.calls = c.calls) (hpending : c'.pending = c.pending)
      (hresults : ∀ n, c'.resultsOf n = c.resultsOf n)
      (hholder : c'.holder = c.holder ∨ c'.holder = none) : Turn c c' []
  /-- a call is issued; it is completed at once, or waits -/
  | issues {call : Call} (hcalls : c'.calls = c.calls ++ [call]) (hpending : c'.pending = c.pending)
      (hresults : ∀ n, n ≠ c.calls.length ∨ call.waiting.isSome → c'.resultsOf n = c.resultsOf n)
      (hholder : c'.holder = c.holder) : Turn c c' []
  /-- a call that waits comes too late -/
  | refuses {n : Nat} {call call' : Call} (hcall : c.calls[n]? = some call)
      (hwaits : call.waiting.isSome) (hwaits' : call'.waiting = none)
      (hcalls : c'.calls = c.calls.set n call') (hpending : c'.pending = c.pending)
      (hresults : ∀ m, m ≠ n → c'.resultsOf m = c.resultsOf m)
      (hholder : c'.holder = c.holder) : Turn c c' []
  /-- a call that waits gets the next number and the right to write -/
  | registers {n : Nat} {method : String} {seq : UInt64} {body : Bytes}
      (hcall : c.calls[n]? = some ⟨method, seq, some body⟩) (hlost : c.lost = false)
      (hcalls : c'.calls = c.calls.set n ⟨method, c.nextSeq, none⟩)
      (hpending : c'.pending = (Incident.taken c.nextSeq).spared c.pending ++ [(c.nextSeq, n)])
      (hresults : ∀ m, c'.resultsOf m = c.resultsOf m)
      (hholder : c'.holder = some (n, body)) : Turn c c' [.taken c.nextSeq]
  /-- the calls are settled on which the incident has a verdict -/
  | settles {i : Incident} (hi : ∀ seq, i.verdict seq ≠ some []) (hcalls : c'.calls = c.calls)
      (hpending : c'.pending = i.spared c.pending)
      (hresults : ∀ p ∈ c.pending,
        c'.resultsOf p.2 = c.resultsOf p.2 ++ (i.verdict p.1).getD [])
      (hothers : ∀ n, (∀ p ∈ c.pending, p.2 ≠ n) → c'.resultsOf n = c.resultsOf n)
      (hholder : c'.holder = c.holder ∨ c'.holder = none) : Turn c c' [i]

/-- **The order of the table**: each entry is that of one call, which has its number and is not
completed, and the call with the right to write has been entered. -/
structure Orderly (c : Client) : Prop where
  keys : (c.pending.map Prod.fst).Nodup
  calls : (c.pending.map Prod.snd).Nodup
  entered : ∀ p ∈ c.pending, ∃ call, c.calls[p.2]? = some call ∧ call.seq = p.1 ∧
    call.waiting = none ∧ c.resultsOf p.2 = []
  /-- what waits, or has not been issued, is not completed -/
  early : ∀ n, (∀ call, c.calls[n]? = some call → call.waiting.isSome) → c.resultsOf n = []
  holder : ∀ {n : Nat} {body : Bytes}, c.holder = some (n, body) →
    ∃ call, c.calls[n]? = some call ∧ call.waiting = none ∧
      ((call.seq, n) ∈ c.pending ∨ c.resultsOf n ≠ [])

/-! ## The results of a step -/

theorem resultsOf_congr (h : c'.completions = c.completions) (n : Nat) :
    c'.resultsOf n = c.resultsOf n := by
  rw [resultsOf, resultsOf, h]

theorem resultsOf_failAll (c : Client) (table : List (UInt64 × Nat)) (reason : CallError)
    (n : Nat) :
    (c.failAll table reason).resultsOf n = c.resultsOf n ++
      (table.filter fun p => p.2 = n).map fun _ => .error (teardownError reason) := by
  simp only [resultsOf, failAll, List.filter_append, List.map_append, List.filter_map, List.map_map]
  rfl

/-- The one entry of a call. -/
theorem filter_eq_singleton {table : List (UInt64 × Nat)} (h : (table.map Prod.snd).Nodup)
    {p : UInt64 × Nat} (hp : p ∈ table) : (table.filter fun q => q.2 = p.2) = [p] := by
  induction table with
  | nil => cases hp
  | cons q table ih =>
    rw [List.map_cons, List.nodup_cons] at h
    rcases List.mem_cons.mp hp with rfl | hp
    · have hrest : (table.filter fun q => q.2 = p.2) = [] := by
        rw [List.filter_eq_nil_iff]
        intro q hq heq
        exact h.1 (List.mem_map.mpr ⟨q, hq, of_decide_eq_true heq⟩)
      rw [List.filter_cons_of_pos (by simp), hrest]
    · have hne : q.2 ≠ p.2 := by
        intro heq
        exact h.1 (List.mem_map.mpr ⟨p, hp, heq.symm⟩)
      rw [List.filter_cons_of_neg (by simpa using hne), ih h.2 hp]

theorem filter_eq_nil {table : List (UInt64 × Nat)} {n : Nat} (h : ∀ p ∈ table, p.2 ≠ n) :
    (table.filter fun q => q.2 = n) = [] :=
  List.filter_eq_nil_iff.mpr fun p hp heq => h p hp (of_decide_eq_true heq)

/-- What has a verdict on one number alone spares the entries under all others. -/
theorem spared_eq_without {i : Incident} {seq : UInt64} {results : List (Except CallError Bytes)}
    (h : ∀ other, i.verdict other = if seq = other then some results else none)
    (table : List (UInt64 × Nat)) : i.spared table = without table seq := by
  refine List.filter_congr fun p _ => ?_
  rw [h]
  by_cases heq : seq = p.1
  · simp [heq]
  · simp [heq, Ne.symm heq]

theorem spared_heard (m : Header × Bytes) (table : List (UInt64 × Nat)) :
    (Incident.heard m).spared table = without table m.1.seq :=
  spared_eq_without (fun _ => rfl) table

theorem spared_taken (seq : UInt64) (table : List (UInt64 × Nat)) :
    (Incident.taken seq).spared table = without table seq :=
  spared_eq_without (fun _ => rfl) table

namespace Orderly

/-- A number and a call stand in one entry, or in none. -/
theorem eq_iff (h : c.Orderly) {p q : UInt64 × Nat} (hp : p ∈ c.pending) (hq : q ∈ c.pending) :
    p.1 = q.1 ↔ p.2 = q.2 := by
  constructor
  · intro heq
    rw [List.inj_on_of_nodup_map h.keys hp hq heq]
  · intro heq
    rw [List.inj_on_of_nodup_map h.calls hp hq heq]

/-- A call on which there is a verdict is spared in no other entry either. -/
theorem ne_of_verdict (h : c.Orderly) {i : Incident} {p q : UInt64 × Nat} (hp : p ∈ c.pending)
    {results : List (Except CallError Bytes)} (hverdict : i.verdict p.1 = some results)
    (hq : q ∈ i.spared c.pending) : q.2 ≠ p.2 := by
  obtain ⟨hq, hspared⟩ := Incident.mem_spared.mp hq
  intro heq
  rw [(h.eq_iff hq hp).mpr heq, hverdict] at hspared
  cases hspared

/-- A response under the number of a pending call settles that call. -/
theorem turn_complete (h : c.Orderly) {m : Header × Bytes} {n : Nat}
    (hn : c.pending? m.1.seq = some n) (reader : Reader) :
    Turn c (complete { c with pending := without c.pending m.1.seq, reader } n (Message.outcome m))
      [.heard m] := by
  have hmem := mem_of_pending? hn
  refine .settles ?_ rfl (spared_heard m _).symm ?_ ?_ (.inl rfl)
  · intro seq
    simp only [Incident.verdict]
    split <;> simp
  · intro p hp
    rw [resultsOf_complete]
    refine congrArg₂ (· ++ ·) rfl ?_
    have hmatch : n = p.2 ↔ m.1.seq = p.1 := (h.eq_iff hmem hp).symm
    by_cases heq : n = p.2
    · simp [Incident.verdict, heq, hmatch.mp heq]
    · simp [Incident.verdict, heq, mt hmatch.mpr heq]
  · intro k hk
    rw [resultsOf_complete, if_neg fun heq => hk _ hmem heq]
    exact List.append_nil _

/-- A response under any other number settles nothing. -/
theorem turn_ignore {m : Header × Bytes} (hnone : c.pending? m.1.seq = none) (reader : Reader) :
    Turn c { c with reader } [.heard m] := by
  have hother := pending?_eq_none.mp hnone
  refine .settles ?_ rfl ?_ ?_ (fun _ _ => rfl) (.inl rfl)
  · intro seq
    simp only [Incident.verdict]
    split <;> simp
  · rw [spared_heard, without_eq_self hother]
  · intro p hp
    rw [Incident.verdict, if_neg (Ne.symm (hother p hp))]
    exact (List.append_nil _).symm

/-- The end of the connection settles all calls. -/
theorem turn_tell (h : c.Orderly) (reason : CallError) (writer : Writer) :
    Turn c (failAll { c with lost := true, pending := [], receiving := .ended, writer } c.pending
      reason) [.tornDown reason] := by
  refine .settles (by simp [Incident.verdict]) rfl ?_ ?_ ?_ (.inl rfl)
  · simp [Incident.spared, Incident.verdict, failAll]
  · intro p hp
    rw [resultsOf_failAll, filter_eq_singleton h.calls hp]
    rfl
  · intro n hn
    rw [resultsOf_failAll, filter_eq_nil hn]
    exact List.append_nil _

/-- The other entries of a call, which there are only if its own one stays. -/
theorem filter_without (h : c.Orderly) {p : UInt64 × Nat} (hp : p ∈ c.pending) (seq : UInt64) :
    ((without c.pending seq).filter fun q => q.2 = p.2) = if p.1 = seq then [] else [p] := by
  split
  · rename_i heq
    refine filter_eq_nil fun q hq hqp => ?_
    obtain ⟨hq, hne⟩ := mem_without.mp hq
    exact hne (((h.eq_iff hq hp).mpr hqp).trans heq)
  · rename_i hne
    exact filter_eq_singleton (h.calls.sublist (without_sublist.map Prod.snd))
      (mem_without.mpr ⟨hp, hne⟩)

/-- A request that cannot be written settles all calls, its own in its own way. -/
theorem turn_abort (h : c.Orderly) (seq : UInt64) (e : WireError) (writer : Writer) :
    Turn c (abort { c with writer, holder := none } seq e) [.unwritten seq e] := by
  have hpending : { c with writer, holder := none }.pending? seq = c.pending? seq := rfl
  have hothers : ∀ k, (∀ p ∈ c.pending, p.2 ≠ k) →
      ((without c.pending seq).filter fun q => q.2 = k) = [] := by
    intro k hk
    exact filter_eq_nil fun p hp => hk p (mem_without.mp hp).1
  simp only [abort, hpending]
  cases hn : c.pending? seq with
  | some n =>
    -- its own call is completed last, when the others have failed already
    have hmem := mem_of_pending? hn
    refine .settles (by simp [Incident.verdict]) rfl ?_ ?_ ?_ (.inr rfl)
    · simp [Incident.spared, Incident.verdict, failAll, complete]
    · intro p hp
      have hmatch : seq = p.1 ↔ n = p.2 := h.eq_iff hmem hp
      rw [resultsOf_complete, resultsOf_failAll, h.filter_without hp, List.append_assoc]
      refine congrArg₂ (· ++ ·) rfl ?_
      by_cases heq : seq = p.1
      · simp [Incident.verdict, heq, hmatch.mp heq]
      · simp [Incident.verdict, heq, Ne.symm heq, mt hmatch.mpr heq]
    · intro k hk
      rw [resultsOf_complete, resultsOf_failAll, hothers k hk, if_neg fun heq => hk _ hmem heq]
      exact (List.append_nil _).trans (List.append_nil _)
  | none =>
    -- a response has completed its own call before, and only the others are left
    have hother := pending?_eq_none.mp hn
    refine .settles (by simp [Incident.verdict]) rfl ?_ ?_ ?_ (.inr rfl)
    · simp [Incident.spared, Incident.verdict, failAll]
    · intro p hp
      rw [resultsOf_failAll, h.filter_without hp, if_neg (hother p hp)]
      simp only [Incident.verdict, if_neg (Ne.symm (hother p hp))]
      rfl
    · intro k hk
      rw [resultsOf_failAll, hothers k hk]
      exact List.append_nil _

end Orderly

/-- **Every step is a turn.** -/
theorem Orderly.turn_of_step (h : c.Orderly) {a : Action} (hstep : c.step a = some c') :
    Turn c c' (c.incident a) := by
  -- a call that is completed without having been pending has no influence on the others
  have others : ∀ {d : Client} {n : Nat} {r : Except CallError Bytes} (m : Nat),
      d.completions = c.completions → m ≠ n → (d.complete n r).resultsOf m = c.resultsOf m := by
    intro d n r m hd hm
    rw [resultsOf_complete, if_neg (Ne.symm hm), List.append_nil, resultsOf_congr hd]
  cases move_of_step hstep with
  | issues => exact .issues rfl rfl (fun _ _ => rfl) rfl
  | misissues =>
    refine .issues rfl rfl ?_ rfl
    intro n hn
    exact others n rfl (hn.resolve_right (by simp))
  | registers _ hcall hclosing hlost =>
    rw [incident_register hclosing hlost]
    exact .registers hcall hlost rfl (by rw [spared_taken]) (fun _ => rfl) rfl
  | refuses _ hcall hover =>
    simp only [incident, if_pos hover]
    exact .refuses hcall rfl rfl rfl rfl (fun m hm => others m rfl hm) rfl
  | writes hholder hcall hwrite =>
    simp only [incident, hholder, hcall, hwrite]
    exact .still rfl rfl (fun _ => rfl) (.inr rfl)
  | breaks hholder hcall hwrite =>
    rw [incident_write hholder hcall hwrite]
    exact h.turn_abort _ _ _
  | waits _ hread | fails _ hread =>
    simp only [incident, hread]
    exact .still rfl rfl (fun _ => rfl) (.inl rfl)
  | @hears hd body _ _ _ hread hbody hpending =>
    rw [incident_read hread hbody]
    exact h.turn_complete (m := (hd, body)) hpending _
  | @ignores hd body _ _ hread hbody hpending =>
    rw [incident_read hread hbody]
    exact turn_ignore (m := (hd, body)) hpending _
  | tells hending =>
    simp only [incident, hending]
    exact h.turn_tell _ _
  | _ => exact .still rfl rfl (fun _ => rfl) (.inl rfl)

end Client

end WireCall
