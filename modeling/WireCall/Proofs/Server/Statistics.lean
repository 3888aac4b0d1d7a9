import WireCall.Proofs.Server.Accounts
import WireCall.Proofs.Server.Ledger

/-!
# What a server has counted when all connections have ended

As each step keeps the balance of each connection, a counter of the server shows at every moment
what is due to all connections, less what is outstanding (`Server.Counter.shows_of_run`). When the
connections have ended, nothing is outstanding, and what is due to a connection is what its requests
have come to (`Server.due_of_ended`).

So the statistics account for every connection and every request (`Server.statistics_exact`), as far
as 64 bits go (`Server.statistics_begin_again`).
-/

namespace WireCall

open Serving (Event requests invocations)

namespace Server

namespace Counter

variable {k : Counter} {s s' : Server} {i n : Nat} {a : Action}

/-! ## The balance of the server -/

/-- A step about none of the connections counts neither requests nor errors nor calls. -/
theorem shows_other (hn : k.Shows s.stats s.registry n) (ha : a.connection? = none)
    (hstep : s.step a = some s') : k.Shows s'.stats s'.registry n := by
  have hregistry : s'.registry = s.registry := by
    refine (spares_of_step hstep).registry.resolve_right ?_
    rintro ⟨i, t, p, rfl, -⟩
    cases ha
  rw [hregistry]
  cases changes_of_step hstep with
  | still _ hstats => rwa [hstats]
  | comes _ _ hstats => rwa [hstats]
  | handsOver _ _ hstats =>
    rw [hstats]
    exact k.shows_connections hn _ _
  | signals _ _ hstats => rwa [hstats]
  | reaches _ hj => cases ha.symm.trans hj
  | goesOn hj => cases ha.symm.trans hj

/-- **Every step keeps the balance**: a counter shows what is due to all connections, less what is
outstanding. -/
theorem balance_step {log : Nat → List Event} {N n₀ : Nat} (hrecorded : ∀ i, s.Recorded i (log i))
    (hn : k.Shows s.stats s.registry n) (hN : s'.connections.length ≤ N)
    (hbalance : n + ∑ i ∈ Finset.range N, k.outstandingAt s i =
      n₀ + ∑ i ∈ Finset.range N, k.dueAt s i (log i)) (hstep : s.step a = some s') :
    ∃ n', k.Shows s'.stats s'.registry n' ∧
      n' + ∑ i ∈ Finset.range N, k.outstandingAt s' i =
        n₀ + ∑ i ∈ Finset.range N, k.dueAt s' i (log i ++ s.events i a) := by
  cases ha : a.connection? with
  | none =>
    have hother := fun i => keeps_other (k := k) hstep (i := i) (by rw [ha]; nofun) (log i)
    refine ⟨n, shows_other hn ha hstep, ?_⟩
    rw [Finset.sum_congr rfl fun i _ => (hother i).1, Finset.sum_congr rfl fun i _ => (hother i).2]
    exact hbalance
  | some j =>
    obtain ⟨n', hn', hkeeps⟩ := keeps_own hn (hrecorded j) ha hstep
    have hother := fun i (hi : i ≠ j) => keeps_other (k := k) hstep (i := i)
      (by rw [ha]; exact fun h => hi (Option.some.inj h).symm) (log i)
    refine ⟨n', hn', ?_⟩
    rcases Nat.lt_or_ge j N with hj | hj
    · have houtstanding := sum_range_add hj fun i hi => (hother i hi).1
      have hdue := sum_range_add hj fun i hi => (hother i hi).2
      omega
    · -- there is no such connection
      have hnone' : s'.connections[j]? = none := List.getElem?_eq_none (Nat.le_trans hN hj)
      have hnone : s.connections[j]? = none :=
        List.getElem?_eq_none (Nat.le_trans (length_connections_step hstep) (Nat.le_trans hN hj))
      simp only [outstandingAt, dueAt, hnone, hnone', Option.elim_none] at hkeeps
      obtain rfl : n' = n := hkeeps
      have hne : ∀ i ∈ Finset.range N, i ≠ j := by
        rintro i hi rfl
        exact Nat.not_lt_of_le hj (Finset.mem_range.mp hi)
      rw [Finset.sum_congr rfl fun i hi => (hother i (hne i hi)).1,
        Finset.sum_congr rfl fun i hi => (hother i (hne i hi)).2]
      exact hbalance

/-- **A counter shows what is due to all connections**, less what is outstanding, and what it has
shown at the start. -/
theorem shows_of_run {s₀ : Server} {n₀ : Nat} {actions : List Action}
    (hempty : s₀.connections = []) (hn : k.Shows s₀.stats s₀.registry n₀)
    (hrun : s₀.run actions = some s) :
    ∃ n, k.Shows s.stats s.registry n ∧
      n + ∑ i ∈ Finset.range s.connections.length, k.outstandingAt s i =
        n₀ + ∑ i ∈ Finset.range s.connections.length, k.dueAt s i (s₀.history i actions) := by
  refine Run.induct (P := fun as s => ∀ N, s.connections.length ≤ N →
    ∃ n, k.Shows s.stats s.registry n ∧
      n + ∑ i ∈ Finset.range N, k.outstandingAt s i =
        n₀ + ∑ i ∈ Finset.range N, k.dueAt s i (s₀.history i as)) ?_ ?_ actions s hrun _
    (Nat.le_refl _)
  · intro N _
    refine ⟨n₀, hn, ?_⟩
    simp [outstandingAt, dueAt, hempty]
  · intro as m a s' hm hbalance hstep N hN
    obtain ⟨n, hn, heq⟩ := hbalance N (Nat.le_trans (length_connections_step hstep) hN)
    simp only [history, Run.log_concat hm hstep]
    exact balance_step (recorded_of_run hempty hm) hn hN heq hstep

end Counter

end Server

/-! ## What is due to a connection that has ended -/

/-- Whether a request has come to nothing: it could not be called, or its call, which is one of
those made, has been a failure. -/
def Request.hasFailed (r : Request) (c : Codec) (calls : List (Prepared × Nat)) : Bool :=
  match r.call with
  | .error _ => true
  | .ok _ => calls.any fun call => call.1.isFailure c call.2

/-- Whether a request has named the method of these names and brought an argument for it. -/
def Request.isCallOf (r : Request) (service method : String) : Bool :=
  r.call.isOk && ServiceName.split r.header.method = some (service, method)

/-- How many of the requests on a connection have come to nothing. -/
def Serving.failures (c : Codec) (log : List Event) : Nat :=
  (Finset.univ.filter fun t : Fin (requests log).length =>
    ((requests log).get t).1.hasFailed c (invocations log t)).card

namespace Connection

/-- Whether the negotiation has failed. -/
def isRefused : Connection → Bool
  | .refused _ _ => true
  | _ => false

/-- How many of the requests on a connection have come to nothing. -/
def failures (log : List Event) : Connection → Nat
  | .serving c | .served c => Serving.failures c.writer.codec log
  | _ => 0

end Connection

namespace Server

variable {k : Counter} {s : Server} {i : Nat} {log : List Event} {conn : Connection}

/-- **What is due to a request** that has come to its result: an error, if it has come to nothing,
and what is due to its call. -/
theorem perAsked_add {codec : Codec} {calls : List (Prepared × Nat)} {r : Request}
    {result : Except String Bytes} (h : Serving.Concludes codec calls r result) :
    k.perAsked r + (calls.map (k.perInvoked codec)).sum =
      k.perRequest + k.perError * (r.hasFailed codec calls).toNat +
        (calls.map fun call => k.perCall call.1).sum := by
  unfold Serving.Concludes at h
  rw [Counter.perAsked, Request.hasFailed]
  cases hcall : r.call with
  | error e =>
    rw [hcall] at h
    obtain ⟨rfl, -⟩ := h
    simp
  | ok p =>
    rw [hcall] at h
    obtain ⟨memory, rfl, -⟩ := h
    cases hfailure : p.isFailure codec memory <;> simp [Counter.perInvoked, hfailure]
    omega

theorem failures_eq (codec : Codec) (log : List Event) :
    Serving.failures codec log = ∑ t : Fin (requests log).length,
      (((requests log).get t).1.hasFailed codec (invocations log t)).toNat := by
  rw [Serving.failures, Finset.card_filter]
  refine Finset.sum_congr rfl fun t _ => ?_
  cases ((requests log).get t).1.hasFailed codec (invocations log t) <;> rfl

/-- Nothing is outstanding on a connection that has ended. -/
theorem outstanding_of_ended (hended : conn.stage ≠ .underWay) : k.outstanding conn = 0 := by
  cases conn with
  | serving c => exact absurd rfl hended
  | _ => rfl

/-- **What is due to a connection that has ended**: to its requests, to the errors among them or to
the failed negotiation, and to the calls. -/
theorem due_of_ended (hrecorded : s.Recorded i log) (hconn : s.connections[i]? = some conn)
    (hended : conn.stage ≠ .underWay) :
    k.due log conn = k.perRequest * (requests log).length +
      k.perError * (conn.isRefused.toNat + conn.failures log) +
      ∑ t : Fin (requests log).length,
        ((invocations log t).map fun call => k.perCall call.1).sum := by
  rcases hrecorded.ended hconn hended with rfl | ⟨c, rfl, hfinished, hworks⟩
  · have hnone : ∑ t : Fin (requests []).length,
        ((invocations [] t).map fun call => k.perCall call.1).sum = 0 :=
      Finset.sum_eq_zero fun _ _ => rfl
    rw [hnone]
    cases conn <;> simp [Counter.due, Counter.perLog, requests, Connection.isRefused,
      Connection.failures, failures_eq]
  · have hsum : k.due log (.served c) = ∑ t : Fin (requests log).length, (k.perRequest +
        k.perError * (((requests log).get t).1.hasFailed c.writer.codec (invocations log t)).toNat +
        ((invocations log t).map fun call => k.perCall call.1).sum) := by
      refine (hworks.sum_events ..).trans (Finset.sum_congr rfl fun t _ => ?_)
      obtain ⟨result, hresult, -⟩ := hworks.finished hfinished (List.getElem?_eq_getElem t.isLt)
      exact perAsked_add hresult
    rw [hsum, Finset.sum_add_distrib, Finset.sum_add_distrib, ← Finset.mul_sum, ← failures_eq,
      Finset.sum_const, Finset.card_univ, Fintype.card_fin, smul_eq_mul, Nat.mul_comm]
    simp only [Connection.isRefused, Connection.failures, Bool.toNat_false, Nat.zero_add]

/-- On a connection that has ended every request has come to its result. -/
theorem concluded_of_ended (hrecorded : s.Recorded i log) (hconn : s.connections[i]? = some conn)
    (hended : conn.stage ≠ .underWay) (t : Fin (requests log).length) :
    ∃ codec result,
      Serving.Concludes codec (invocations log t) ((requests log).get t).1 result := by
  rcases hrecorded.ended hconn hended with rfl | ⟨c, -, hfinished, hworks⟩
  · exact t.elim0
  · obtain ⟨result, hresult, -⟩ := hworks.finished hfinished (List.getElem?_eq_getElem t.isLt)
    exact ⟨c.writer.codec, result, hresult⟩

/-- A request that can be called gives the names of the service and the method of its call. -/
theorem names_of_run {s₀ : Server} {actions : List Action} (hproper : s₀.registry.Proper)
    (hrun : s₀.run actions = some s) {q : Request × Bytes}
    (hq : q ∈ requests (s₀.history i actions)) {p : Prepared} (hp : q.1.call = .ok p) :
    ServiceName.split q.1.header.method = some (p.service, p.method.name) := by
  obtain ⟨r, codec, halike, hcall⟩ := prepared_of_run hrun i q hq
  exact (hproper.alike halike).split_of_prepare (hcall.symm.trans hp)

/-- A request that can be called has been called once, by the names that it gave. -/
theorem sum_calls {codec : Codec} {calls : List (Prepared × Nat)} {r : Request}
    {result : Except String Bytes} (h : Serving.Concludes codec calls r result)
    (hnames : ∀ p, r.call = .ok p →
      ServiceName.split r.header.method = some (p.service, p.method.name))
    (service method : String) :
    (calls.map fun call => (call.1.isOf service method).toNat).sum =
      (r.isCallOf service method).toNat := by
  unfold Serving.Concludes at h
  cases hcall : r.call with
  | error e =>
    rw [hcall] at h
    obtain ⟨rfl, -⟩ := h
    simp [Request.isCallOf, hcall, Except.isOk, Except.toBool]
  | ok p =>
    rw [hcall] at h
    obtain ⟨memory, rfl, -⟩ := h
    simp [Request.isCallOf, hcall, hnames p hcall, Prepared.isOf, Except.isOk, Except.toBool]

/-- **When all connections have ended**, a counter has gone up by what is due to them. -/
theorem shows_of_ended (k : Counter) {s₀ : Server} {n₀ : Nat} {actions : List Action}
    (hrun : s₀.run actions = some s) (hempty : s₀.connections = [])
    (hn : k.Shows s₀.stats s₀.registry n₀)
    (hended : ∀ conn ∈ s.connections, conn.stage ≠ .underWay) :
    k.Shows s.stats s.registry (n₀ + ∑ i : Fin s.connections.length,
      (k.perRequest * (requests (s₀.history i actions)).length +
        k.perError * ((s.connections.get i).isRefused.toNat +
          (s.connections.get i).failures (s₀.history i actions)) +
        ∑ t : Fin (requests (s₀.history i actions)).length,
          ((invocations (s₀.history i actions) t).map fun call => k.perCall call.1).sum)) := by
  obtain ⟨n, hshows, heq⟩ := Counter.shows_of_run hempty hn hrun
  rw [← Fin.sum_univ_eq_sum_range, ← Fin.sum_univ_eq_sum_range] at heq
  have hconn := fun i : Fin s.connections.length => List.getElem?_eq_getElem i.isLt
  have hstage := fun i : Fin s.connections.length => hended _ (List.getElem_mem i.isLt)
  have hnone : ∑ i : Fin s.connections.length, k.outstandingAt s i = 0 :=
    Finset.sum_eq_zero fun i _ =>
      (Counter.outstandingAt_eq (hconn i)).trans (outstanding_of_ended (hstage i))
  have hdue := fun (i : Fin s.connections.length) (_ : i ∈ Finset.univ) =>
    (Counter.dueAt_eq (k := k) (hconn i)).trans
      (due_of_ended (recorded_of_run hempty hrun i) (hconn i) (hstage i))
  rw [hnone, Nat.add_zero, Finset.sum_congr rfl hdue] at heq
  exact heq ▸ hshows

/-! ## The counters -/

namespace Counter

/-- The counter of the requests. -/
def requests : Counter where
  Shows stats _ n := stats.requestsTotal = .ofNat n
  perRequest := 1
  perError := 0
  perCall _ := 0
  shows_request h := (congrArg (· + 1) h).trans (UInt64.ofNat_add _ 1).symm
  shows_error h := h
  shows_call h _ := h
  shows_connections h _ _ := h

/-- The counter of the errors. -/
def errors : Counter where
  Shows stats _ n := stats.errorsTotal = .ofNat n
  perRequest := 0
  perError := 1
  perCall _ := 0
  shows_request h := h
  shows_error h := (congrArg (· + 1) h).trans (UInt64.ofNat_add _ 1).symm
  shows_call h _ := h
  shows_connections h _ _ := h

/-- The counter of the calls of a method. -/
def calls (service method : String) : Counter where
  Shows _ r n := r.calls? service method = some (.ofNat n)
  perRequest := 0
  perError := 0
  perCall p := (p.isOf service method).toNat
  shows_request h := h
  shows_error h := h
  shows_call h p := by rw [Registry.calls?_invoke, h, Option.map_some, UInt64.ofNat_add]
  shows_connections h _ _ := h

end Counter

/-- Any number of connections can be under way at the same time. -/
theorem exists_handedOver (sink : Sink) (n : Nat) :
    ∃ s, run {} (List.replicate n (.handOver sink)) = some s ∧
      s.stages = List.replicate n .underWay := by
  induction n with
  | zero => exact ⟨{}, rfl, rfl⟩
  | succ n ih =>
    obtain ⟨s, hrun, hstages⟩ := ih
    rw [List.replicate_succ']
    refine ⟨_, Run.concat_eq_some.mpr ⟨s, hrun, rfl⟩, ?_⟩
    rw [List.replicate_succ', ← hstages]
    simp [stages, enter, setConnection, countEntered, Connection.stage]

/-! ## The main statement -/

/-- **The statistics account for every connection and every request**, in numbers of 64 bits that
begin again from 0. On a server whose registry has been published, and on which there has been no
connection, whatever happens: modulo 2^64, it has counted just the connections whose serving has
begun, and counts as active just those whose serving has not ended. And when all of them have ended,
it has counted, modulo 2^64 again,

- as requests, those that have been read on all connections;
- as errors, the negotiations that have failed and the requests that have come to nothing;
- as calls of each method, the requests that named it and brought an argument for it. -/
theorem statistics_exact {settings : ServerSettings} {registry : Registry}
    {actions : List Action} (hpublished : registry.Published)
    (hrun : run { settings, registry } actions = some s) :
    s.stats.connectionsTotal = .ofNat (s.stages.countP Stage.hasBegun) ∧
    s.stats.connectionsActive = .ofNat (s.stages.countP Stage.isUnderWay) ∧
    ((∀ conn ∈ s.connections, conn.stage ≠ .underWay) →
      s.stats.requestsTotal = .ofNat (∑ i : Fin s.connections.length,
        (requests (history i { settings, registry } actions)).length) ∧
      s.stats.errorsTotal = .ofNat (s.connections.countP Connection.isRefused +
        ∑ i : Fin s.connections.length,
          (s.connections.get i).failures (history i { settings, registry } actions)) ∧
      ∀ service method n, s.registry.calls? service method = some n →
        n = .ofNat (∑ i : Fin s.connections.length,
          (requests (history i { settings, registry } actions)).countP fun q =>
            q.1.isCallOf service method)) := by
  have hbalanced := balanced_of_run hrun
  refine ⟨hbalanced.total, hbalanced.active, ?_⟩
  intro hended
  refine ⟨?_, ?_, ?_⟩
  · have hshows := shows_of_ended .requests hrun rfl rfl hended
    simpa [Counter.requests] using hshows
  · have hshows := shows_of_ended .errors hrun rfl rfl hended
    simpa [Counter.errors, countP_eq_sum, Finset.sum_add_distrib] using hshows
  · intro service method n hn
    obtain ⟨n₀, hn₀⟩ := (alike_of_run hrun).exists_calls? hn
    obtain rfl := hpublished.calls?_eq hn₀
    have hshows := shows_of_ended (.calls service method) hrun rfl hn₀ hended
    have hcalls := Option.some.inj (hn.symm.trans hshows)
    simp only [Counter.calls, Nat.zero_mul, Nat.zero_add] at hcalls
    refine hcalls.trans (congrArg UInt64.ofNat (Finset.sum_congr rfl fun i _ => ?_))
    rw [countP_eq_sum]
    refine Finset.sum_congr rfl fun t _ => ?_
    obtain ⟨codec, result, hresult⟩ := concluded_of_ended (recorded_of_run rfl hrun i)
      (List.getElem?_eq_getElem i.isLt) (hended _ (List.getElem_mem i.isLt)) t
    refine sum_calls hresult (fun p hp => ?_) service method
    exact names_of_run hpublished.proper hrun (List.getElem_mem t.isLt) hp

/-- **The statistics begin again from 0**: when 2^64 connections are under way, none is counted, and
none is counted as active. -/
theorem statistics_begin_again :
    ∃ s, run {} (List.replicate 0x10000000000000000 (.handOver { behaviour := .faithful })) =
        some s ∧
      s.stages.countP Stage.hasBegun = 0x10000000000000000 ∧
      s.stages.countP Stage.isUnderWay = 0x10000000000000000 ∧
      s.stats.connectionsTotal.toNat = 0 ∧ s.stats.connectionsActive.toNat = 0 := by
  obtain ⟨s, hrun, hstages⟩ := exists_handedOver { behaviour := .faithful } 0x10000000000000000
  have hbegun : s.stages.countP Stage.hasBegun = 0x10000000000000000 := by
    rw [hstages, List.countP_replicate]
    exact if_pos rfl
  have hunderWay : s.stages.countP Stage.isUnderWay = 0x10000000000000000 := by
    rw [hstages, List.countP_replicate]
    exact if_pos rfl
  have hbalanced := balanced_of_run hrun
  refine ⟨s, hrun, hbegun, hunderWay, ?_, ?_⟩
  · rw [hbalanced.total, hbegun]
    rfl
  · rw [hbalanced.active, hunderWay]
    rfl

/-- Requests for the sum of one and two, for a sleep of minus one millisecond, and for a method that
there is not. -/
def mixedRequests : Bytes :=
  sumRequest ++ Message.bytes .compact (⟨"Foo.Sleep", 8, ""⟩, [1, 0]) ++
    Message.bytes .compact (⟨"Foo.No", 9, ""⟩, [])

/-- One client sends these requests, and another one a line that is no options. -/
def mixing : List Action :=
  opening ++ [.negotiate 0, .receive 0 mixedRequests, .handOver { behaviour := .faithful },
    .receive 1 [0x0a], .negotiate 1, .read 0, .read 0, .call 0 1, .call 0 0, .read 0, .respond 0 1,
    .call 0 2, .respond 0 0, .respond 0 2, .hangUp 0 .finished, .read 0, .close 0]

theorem published_demo : (offering Demo.service).Published := by
  have hbuilt : Demo.service.Built := .method (.method (.named "Foo") rfl) rfl
  have hregister : Registry.register {} Demo.service = .ok (offering Demo.service) := rfl
  exact .register .empty hbuilt hregister

theorem statistics_exact_mixing :
    ∃ s, run { registry := offering Demo.service } mixing = some s ∧
      (∀ conn ∈ s.connections, conn.stage ≠ .underWay) ∧
      3 = UInt64.ofNat (∑ i : Fin s.connections.length,
        (requests (history i { registry := offering Demo.service } mixing)).length) ∧
      3 = UInt64.ofNat (s.connections.countP Connection.isRefused +
        ∑ i : Fin s.connections.length,
          (s.connections.get i).failures (history i { registry := offering Demo.service } mixing)) ∧
      1 = UInt64.ofNat (∑ i : Fin s.connections.length,
        (requests (history i { registry := offering Demo.service } mixing)).countP fun q =>
          q.1.isCallOf "Foo" "Sum") := by
  have hends : (run { registry := offering Demo.service } mixing).any (fun s =>
      decide (s.stats.requestsTotal = 3) && decide (s.stats.errorsTotal = 3) &&
        decide (s.registry.calls? "Foo" "Sum" = some 1) &&
        s.connections.all fun conn => decide (conn.stage ≠ .underWay)) = true := by
    decide +kernel
  obtain ⟨s, hrun, hs⟩ := (Option.any_eq_true _ _).mp hends
  simp only [Bool.and_eq_true, decide_eq_true_eq, List.all_eq_true] at hs
  obtain ⟨⟨⟨hrequests, herrors⟩, hcalls⟩, hended⟩ := hs
  obtain ⟨-, -, hexact⟩ := statistics_exact published_demo hrun
  obtain ⟨hrequests', herrors', hcalls'⟩ := hexact hended
  exact ⟨s, hrun, hended, hrequests.symm.trans hrequests', herrors.symm.trans herrors',
    hcalls' _ _ _ hcalls⟩

end Server

end WireCall
