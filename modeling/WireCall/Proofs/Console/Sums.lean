import WireCall.Proofs.Console.Bench
import WireCall.Proofs.Network.Calls
import WireCall.Proofs.Shape.RoundTrip

/-!
# The sums of a bench

The server adds a number to its square, and says so if the sum does not fit 64 bits. But the square
comes from the client, which takes it in 64 bits without looking: from `Bench.squareLimit` on it is
less by 2^64, and then the sum of the two fits again. So each line shows a sum, which is exact just
below that limit (`Network.sum_line_exact_iff`).
-/

namespace WireCall

/-! ## Numbers and their squares -/

namespace Console.Bench

/-- The least number whose square does not fit 64 bits. -/
def squareLimit : Nat := 3037000500

/-- The square of a number of 32 bits, as the server is told. -/
def toldSquare (i : Nat) : Int :=
  if i < squareLimit then i * i else i * i - 0x10000000000000000

/-- The sum that is shown for a number of 32 bits. -/
def shownSum (i : Nat) : Int := i + toldSquare i

/-- **Squares fit 64 bits just below the limit.** -/
theorem fits_square_iff {i : Nat} : Demo.Fits (i * i) ↔ i < squareLimit := by
  have hfits : Demo.Fits (i * i) ↔ i * i < 0x8000000000000000 := by
    rw [Demo.Fits, ← Int.natCast_mul]
    omega
  rw [hfits, squareLimit]
  constructor
  · intro hlt
    by_contra hle
    have hsquare := Nat.mul_le_mul (Nat.le_of_not_lt hle) (Nat.le_of_not_lt hle)
    omega
  · intro hlt
    have hsquare := Nat.mul_le_mul (Nat.le_of_lt_succ hlt) (Nat.le_of_lt_succ hlt)
    omega

/-- **A shown sum is exact** just if the square fits. -/
theorem shownSum_eq_iff {i : Nat} : shownSum i = i + i * i ↔ i < squareLimit := by
  rw [shownSum, toldSquare]
  split <;> omega

variable {i : Nat}

/-- The square of a number of 32 bits is less than 2^64. -/
theorem square_lt (hi : i < 0x100000000) : i * i ≤ 0xfffffffe00000001 :=
  Nat.mul_le_mul (Nat.le_of_lt_succ hi) (Nat.le_of_lt_succ hi)

/-- The numbers in the argument are the number itself and the square that the server is told. -/
theorem toInt_numbers (hi : i < 0x100000000) :
    (BitVec.ofNat 64 i).toInt = i ∧
      (BitVec.ofNat 64 i * BitVec.ofNat 64 i).toInt = toldSquare i := by
  have hsquare := square_lt hi
  constructor
  · rw [BitVec.toInt_ofNat', Int.bmod_eq_of_le] <;> omega
  · rw [toInt_square, toldSquare]
    split
    · rename_i hlt
      obtain ⟨hlow, hhigh⟩ := fits_square_iff.mpr hlt
      rw [Int.bmod_eq_of_le] <;> omega
    · rename_i hle
      have hfits := mt fits_square_iff.mp hle
      rw [Demo.Fits, ← Int.natCast_mul] at hfits
      rw [← Int.natCast_mul, Int.bmod_def]
      omega

/-- The sum of the two always fits 64 bits. -/
theorem fits_shownSum (hi : i < 0x100000000) : Demo.Fits (shownSum i) := by
  have hsquare := square_lt hi
  rw [shownSum, toldSquare]
  split
  · rename_i hlt
    have hlast := Nat.mul_le_mul (Nat.le_of_lt_succ hlt) (Nat.le_of_lt_succ hlt)
    rw [squareLimit] at hlt
    rw [Demo.Fits, ← Int.natCast_mul]
    omega
  · rename_i hle
    have hfits := mt fits_square_iff.mp hle
    rw [Demo.Fits, ← Int.natCast_mul] at *
    omega

/-- **The server replies** with the sum that is shown, and never fails. -/
theorem sum_replies (hi : i < 0x100000000) :
    ∃ c, Demo.sum (BitVec.ofNat 64 i) (BitVec.ofNat 64 i * BitVec.ofNat 64 i) = .replies c ∧
      c.toInt = shownSum i := by
  obtain ⟨hnumber, hsquare⟩ := toInt_numbers hi
  have hsum : (BitVec.ofNat 64 i).toInt + (BitVec.ofNat 64 i * BitVec.ofNat 64 i).toInt =
      shownSum i := by
    rw [hnumber, hsquare, shownSum]
  have hreplies : Demo.sum (BitVec.ofNat 64 i) (BitVec.ofNat 64 i * BitVec.ofNat 64 i) =
      .replies (BitVec.ofInt 64 (shownSum i)) := by
    simp only [Demo.sum, hsum, if_pos (fits_shownSum hi)]
  refine ⟨_, hreplies, ?_⟩
  rw [Demo.sum_replies hreplies, hsum]

end Console.Bench

/-! ## The demonstration service on a server -/

/-- Values of a faithful shape come back in both encodings. -/
theorem Codec.roundTrips_of_short (c : Codec) {s : Shape} (hs : s.isFaithful = true)
    (hdepth : s.nesting ≤ Json.maxDepth) {v : s.Value} (hv : s.Short v) : c.RoundTrips ⟨s, v⟩ := by
  obtain ⟨⟨bytes, hbytes, hread⟩, text, htext, haround⟩ := round_trip hs hdepth v
  cases c with
  | compact =>
    have hdecode := hread hv []
    rw [List.append_nil] at hdecode
    exact ⟨bytes, hbytes, hdecode⟩
  | json =>
    have hdecode := (haround [] [] nofun nofun).1
    rw [List.append_nil] at hdecode
    exact ⟨text, htext, hdecode⟩

/-- Whether a registry has a service under its own name, whatever calls there have been. -/
def Registry.Hosts (r : Registry) (s : Service) : Prop :=
  ∃ s', r.services.get? s.name = some s' ∧ s.Alike s'

theorem Registry.Alike.hosts {r r' : Registry} (h : r.Alike r') {s : Service} (hs : r.Hosts s) :
    r'.Hosts s := by
  obtain ⟨s₁, hs₁, halike₁⟩ := hs
  have hservice := h s.name
  rw [hs₁] at hservice
  generalize hs₂ : r'.services.get? s.name = o at hservice
  cases hservice with
  | some halike₂ => exact ⟨_, hs₂, halike₁.trans halike₂⟩

/-- The method that adds two numbers. -/
def Demo.sumMethod : Method := .make "Sum" argument reply sumPlan

/-- A request for a sum is prepared with the two numbers. -/
theorem Registry.prepare_sum {r : Registry} (h : r.Hosts Demo.service) {c : Codec}
    {a b : BitVec 64} {body : Bytes}
    (hencode : c.encode Demo.argumentShape (Demo.arguments a b) = .ok body) :
    ∃ n, r.prepare c Console.Bench.method body =
      .ok (Prepared.counting ⟨"Foo", Demo.sumMethod, Demo.arguments a b⟩ n) := by
  obtain ⟨s, hs, halike⟩ := h
  have hmethod : Option.Rel Method.Alike (some Demo.sumMethod) (s.find? "Sum") := halike "Sum"
  generalize hm : s.find? "Sum" = o at hmethod
  cases hmethod with
  | some hcounting =>
    obtain ⟨n, rfl⟩ := hcounting
    refine ⟨n, ?_⟩
    have hlookup : r.lookup Console.Bench.method =
        .ok ("Foo", { Demo.sumMethod with calls := n }) := by
      have hsplit : ServiceName.split Console.Bench.method = some ("Foo", "Sum") := rfl
      have hname : r.services.get? "Foo" = some s := hs
      simp only [lookup, hsplit, hname, hm]
    have hfaithful := everyday_faithful Demo.argumentShape (by simp [everyday])
    obtain ⟨body', hbody', hdecode⟩ := c.roundTrips_of_short hfaithful.1
      (Nat.le_trans hfaithful.2 (by decide)) (v := Demo.arguments a b) ⟨trivial, trivial, trivial⟩
    obtain rfl := Except.ok.inj (hencode.symm.trans hbody')
    have hargument : c.decode Demo.argument.shape body = .ok (Demo.arguments a b) := hdecode
    simp only [prepare, hlookup, bind, Except.bind]
    exact bind_eq_ok.mpr ⟨_, congrArg (Except.mapError ServeError.readArgument) hargument, rfl⟩

/-- A call of that method ends with the encoded sum, if there is one. -/
theorem Prepared.result_sum {a b c : BitVec 64} (h : Demo.sum a b = .replies c) (codec : Codec)
    (request : String) (n : UInt64) (memory : Nat) :
    ∃ body, (counting ⟨"Foo", Demo.sumMethod, Demo.arguments a b⟩ n).result codec request memory =
      .ok body ∧ codec.decode Demo.reply.shape body = .ok c := by
  have hfaithful := everyday_faithful Demo.reply.shape (by simp [everyday, Demo.reply])
  obtain ⟨body, hencode, hdecode⟩ := codec.roundTrips_of_short hfaithful.1
    (Nat.le_trans hfaithful.2 (by decide)) (v := c) trivial
  have hanswer : Demo.sumMethod.answer codec request (Demo.sum a b) = .ok body := by
    rw [h]
    exact congrArg (Except.mapError _) hencode
  exact ⟨body, (Method.answer_counting _ _ _ _ _).trans hanswer, hdecode⟩

/-! ## The lines -/

namespace Network

open Serving (Concludes requests invocations)
open Client (issues)

variable {codec : Codec} {net₀ net' : Network} {actions : List Action}
  {asked : List Client.Event} {done : List Serving.Event}

/-- A line with a reply shows the reply. -/
theorem line_ok {i : Nat} {r : Console.Bench.Result} {c : BitVec 64} (h : r = .ok c) :
    Console.Bench.line i r =
      toString i ++ " + " ++ toString i ++ "^2" ++ " = " ++ toString c.toInt ++ "\n" := by
  rw [h]
  rfl

/-- **Which sums of a bench are exact.** On a server that hosts the demonstration service, in a
session with fewer calls than numbers, whose arguments can be encoded and whose messages go into
frames, and whatever else happens in it, take the call that a bench issues for a number of 32 bits.

- The square in its argument is exact just if the number is below the limit, and otherwise less
  by 2^64.
- The line with a result of the call never shows a failure, but the sum of the number and the square
  in the argument; this is the exact sum just if the number is below the limit.
- Where nothing is left to do, the call has its result. -/
theorem sum_line_exact_iff (hsession : Session codec net₀ net' actions asked done)
    (hmoderate : Moderate codec asked done) (hhosts : net₀.server.registry.Hosts Demo.service) :
    ∃ l, net'.lines[net₀.lines.length]? = some l ∧
      ∀ n i call, i < 0x100000000 → l.client.calls[n]? = some call →
        (issues asked)[n]? = some (Console.Bench.method, Console.Bench.argument i) →
        (∃ a b, Console.Bench.argument i = ⟨Demo.argumentShape, Demo.arguments a b⟩ ∧
          a.toInt = i ∧ b.toInt = Console.Bench.toldSquare i) ∧
        (Console.Bench.toldSquare i = i * i ↔ i < Console.Bench.squareLimit) ∧
        (∀ r ∈ l.client.resultsOf n,
          Console.Bench.line i (Client.decodeReply codec Demo.reply.shape r) =
            toString i ++ " + " ++ toString i ++ "^2" ++ " = " ++
              toString (Console.Bench.shownSum i) ++ "\n") ∧
        (Console.Bench.shownSum i = i + i * i ↔ i < Console.Bench.squareLimit) ∧
        (net'.Rests l → ∃ r, l.client.resultsOf n = [r]) := by
  have h := hsession.joined hmoderate
  obtain ⟨l, conn, hl, -, -, hlink⟩ := h.link
  refine ⟨l, hl, ?_⟩
  intro n i call hi hcall hissued
  obtain ⟨hnumber, hsquare⟩ := Console.Bench.toInt_numbers hi
  refine ⟨⟨_, _, rfl, hnumber, hsquare⟩, ?_, ?_, Console.Bench.shownSum_eq_iff, ?_⟩
  · rw [Console.Bench.toldSquare]
    split <;> omega
  · intro r hr
    obtain ⟨-, argument, t, q, result, hargument, hassigned, hresult, rfl⟩ :=
      h.result hmoderate.fit hl hcall hr
    obtain ⟨hmethod, rfl⟩ := Prod.mk.inj (Option.some.inj (hargument.symm.trans hissued))
    obtain ⟨registry, halike, hprepared⟩ := h.prepared q (List.mem_of_getElem? hassigned.request)
    have herror : q.1.header.error = "" := by rw [hassigned.header]
    -- the call of the request is that of the method with the two numbers
    obtain ⟨m, hprepare⟩ := Registry.prepare_sum (halike.hosts hhosts) hassigned.body
    rw [hassigned.header, hmethod, hprepare] at hprepared
    simp only [Concludes, hprepared] at hresult
    obtain ⟨memory, -, rfl⟩ := hresult
    obtain ⟨c, hsum, hc⟩ := Console.Bench.sum_replies hi
    obtain ⟨body, hbody, hdecode⟩ :=
      Prepared.result_sum hsum codec q.1.header.method m memory
    rw [hbody, Response.outcome_ok codec herror, ← hc]
    exact line_ok (congrArg (Except.mapError _) hdecode)
  · exact fun hrests => h.completed hmoderate.fit hl hrests (List.getElem?_eq_some_iff.mp hcall).1

/-! ## The numbers next to the limit -/

/-- A bench calls for two numbers, and the second call is answered first. -/
def sumCalls (i j : Nat) : List Action :=
  [.server (.accept 0), .server (.serve 0),
    .client 0 (.issue Console.Bench.method (Console.Bench.argument i)), .client 0 (.register 0),
    .client 0 .write, .client 0 (.issue Console.Bench.method (Console.Bench.argument j)),
    .client 0 (.register 1), .client 0 .write, .carryUp 0 1000, .server (.negotiate 0),
    .server (.read 0), .server (.read 0), .server (.call 0 1), .server (.respond 0 1),
    .server (.call 0 0), .server (.respond 0 0), .carryDown 0 1000, .client 0 .read,
    .client 0 .read]

/-- What is shown of a call that has one result. -/
def shownLine (codec : Codec) (client : Client) (n i : Nat) : Option String :=
  match client.resultsOf n with
  | [r] => some (Console.Bench.line i (Client.decodeReply codec Demo.reply.shape r))
  | _ => none

theorem sum_line_exact_iff_last :
    ∃ net' asked done l, Session .compact (offering Demo.service) net'
        (sumCalls 3037000499 3037000500) asked done ∧
      net'.lines[0]? = some l ∧ ∃ r s, l.client.resultsOf 0 = [r] ∧ l.client.resultsOf 1 = [s] ∧
      Console.Bench.line 3037000499 (Client.decodeReply .compact Demo.reply.shape r) =
        "3037000499 + 3037000499^2 = 9223372033963249500\n" ∧
      Console.Bench.line 3037000500 (Client.decodeReply .compact Demo.reply.shape s) =
        "3037000500 + 3037000500^2 = -9223372033672301116\n" := by
  have hchecks : (sessionOf (offering Demo.service) {} (sumCalls 3037000499 3037000500)).any
      (fun (net', l, asked, done) =>
        decide (Moderate .compact asked done) && decide (net'.Rests l) &&
          decide (l.client.calls.length = 2) &&
          !isTurnedAway net'.server.connections[0]?) = true := by
    decide +kernel
  obtain ⟨⟨net', l, asked, done⟩, hsome, hchecks⟩ := (Option.any_eq_true _ _).mp hchecks
  simp only [Bool.and_eq_true, decide_eq_true_eq, Bool.not_eq_true'] at hchecks
  obtain ⟨⟨⟨hmoderate, hrests⟩, hcalls⟩, hkept⟩ := hchecks
  obtain ⟨hsession, hl⟩ :=
    session_of_eq_some rfl (rfl : _ = Options.forCodec .compact) (by decide +kernel) hsome hkept
  have hhosts : (offering Demo.service).server.registry.Hosts Demo.service :=
    ⟨Demo.service, rfl, .refl _⟩
  obtain ⟨l', hl', hexact⟩ := sum_line_exact_iff hsession hmoderate hhosts
  obtain rfl := Option.some.inj (hl.symm.trans hl')
  have hissued := hsession.issues_eq
  obtain ⟨-, -, hline, -, hdone⟩ := hexact 0 3037000499 _ (by decide)
    (List.getElem?_eq_getElem (by omega)) (by rw [hissued]; rfl)
  obtain ⟨-, -, hline', -, hdone'⟩ := hexact 1 3037000500 _ (by decide)
    (List.getElem?_eq_getElem (by omega)) (by rw [hissued]; rfl)
  obtain ⟨r, hr⟩ := hdone hrests
  obtain ⟨s, hs⟩ := hdone' hrests
  refine ⟨net', asked, done, l, hsession, hl, r, s, hr, hs, ?_, ?_⟩
  · rw [hline r (hr ▸ List.mem_cons_self)]
    decide +kernel
  · rw [hline' s (hs ▸ List.mem_cons_self)]
    decide +kernel

/-- A bench shows a sum that is neither exact nor a failure, for a number whose square does not
fit. -/
theorem wrapped_sum_shown :
    ¬ Demo.Fits (3037000500 * 3037000500) ∧
    ∃ net' asked done l r,
      Session .compact (offering Demo.service) net' (sumCalls 0 3037000500) asked done ∧
      Moderate .compact asked done ∧ net'.lines[0]? = some l ∧ l.client.resultsOf 1 = [r] ∧
      Console.Bench.line 3037000500 (Client.decodeReply .compact Demo.reply.shape r) =
        "3037000500 + 3037000500^2 = -9223372033672301116\n" := by
  refine ⟨by decide, ?_⟩
  have hchecks : (sessionOf (offering Demo.service) {} (sumCalls 0 3037000500)).any
      (fun (net', l, asked, done) =>
        decide (Moderate .compact asked done) &&
          decide (shownLine .compact l.client 1 3037000500 =
            some "3037000500 + 3037000500^2 = -9223372033672301116\n") &&
          !isTurnedAway net'.server.connections[0]?) = true := by
    decide +kernel
  obtain ⟨⟨net', l, asked, done⟩, hsome, hchecks⟩ := (Option.any_eq_true _ _).mp hchecks
  simp only [Bool.and_eq_true, decide_eq_true_eq, Bool.not_eq_true'] at hchecks
  obtain ⟨⟨hmoderate, hshown⟩, hkept⟩ := hchecks
  obtain ⟨hsession, hl⟩ :=
    session_of_eq_some rfl (rfl : _ = Options.forCodec .compact) (by decide +kernel) hsome hkept
  unfold shownLine at hshown
  split at hshown
  · rename_i r hr
    exact ⟨net', asked, done, l, r, hsession, hmoderate, hl, hr, Option.some.inj hshown⟩
  · cases hshown

end Network

end WireCall
