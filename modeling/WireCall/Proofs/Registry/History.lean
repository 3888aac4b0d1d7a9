import WireCall.Demo
import WireCall.Proofs.Registry.Published

/-!
# What has been published stays

In the *history* of a registry services are offered to it and calls are made, in any order
(`Registry.Event`). A service that is offered under a name that is not exported, or that has been
taken, leaves no trace; so of all services that are offered under one name the first one counts. It
keeps its methods for good, and nothing but its own calls moves their counters
(`Registry.called_replay`). In a service itself it is the other way round: of all methods that are
given to it under one exported name the last one counts (`Service.find?_foldl_method`). The two
rules together are `Registry.first_offer_wins`.
-/

namespace WireCall

/-! ## The methods of a service -/

/-- **The methods of a service that has been built** are the ones given to it under exported names,
and of several under one name the last one. -/
theorem Service.find?_foldl_method (name : String) (given : List Method) (method : String) :
    (given.foldl Service.method (Service.named name)).find? method =
      if ServiceName.isExported method then (given.filter (·.name = method)).getLast?
      else none := by
  induction given using List.reverseRecOn with
  | nil => exact (ite_self none).symm
  | append_singleton given m ih =>
    rw [List.foldl_concat, List.filter_append, List.getLast?_append, Service.method]
    by_cases hexported : ServiceName.isExported m.name
    · rw [if_pos hexported, Service.find?, Mapping.get?_insert]
      by_cases hname : m.name = method
      · subst hname
        simp [hexported]
      · rw [if_neg hname]
        rw [Service.find?] at ih
        simpa [hname] using ih
    · rw [if_neg hexported, ih]
      by_cases hname : m.name = method
      · subst hname
        simp [hexported]
      · simp [hname]

theorem Service.name_foldl_method (name : String) (given : List Method) :
    (given.foldl Service.method (Service.named name)).name = name := by
  induction given using List.reverseRecOn with
  | nil => rfl
  | append_singleton given m ih =>
    rw [List.foldl_concat, Service.method]
    split <;> exact ih

/-- **The same service**, each of whose methods has been called so often since. The counters have 64
bits. -/
structure Service.Called (s s' : Service) (n : String → Nat) : Prop where
  name : s'.name = s.name
  find? : ∀ method, s'.find? method =
    (s.find? method).map fun m => { m with calls := m.calls + .ofNat (n method) }

namespace Service.Called

variable {s s' s'' : Service} {n n' : String → Nat}

theorem refl (s : Service) : s.Called s fun _ => 0 where
  name := rfl
  find? method := by
    cases s.find? method with
    | none => rfl
    | some m => exact congrArg (fun n => some { m with calls := n }) (UInt64.add_zero _).symm

theorem trans (h : s.Called s' n) (h' : s'.Called s'' n') :
    s.Called s'' fun method => n method + n' method where
  name := h'.name.trans h.name
  find? method := by
    rw [h'.find?, h.find?, Option.map_map]
    refine congrArg (Option.map · _) (funext fun m => ?_)
    simp only [Function.comp_apply, UInt64.ofNat_add, UInt64.add_assoc]

end Service.Called

namespace Registry

variable {r r' : Registry} {s s' : Service}

/-! ## Histories -/

/-- What can happen to a registry. -/
inductive Event where
  /-- a service is offered to be published -/
  | offer (s : Service)
  /-- a call is made -/
  | call (p : Prepared)

/-- Whether a call of the method of these names is made. -/
def Event.isCallOf (service method : String) : Event → Bool
  | .offer _ => false
  | .call p => p.isOf service method

/-- The registry behind an event. A service that cannot be published leaves it as it was. -/
def after (r : Registry) : Event → Registry
  | .offer s =>
    match r.register s with
    | .ok r' => r'
    | .error _ => r
  | .call p => (r.invoke p).1

/-- The registry behind a history. -/
def replay (r : Registry) (es : List Event) : Registry := es.foldl after r

@[simp]
theorem replay_append (r : Registry) (es es' : List Event) :
    r.replay (es ++ es') = (r.replay es).replay es' := List.foldl_append

/-- **A service is published in a history**: it is offered behind `before`, and accepted; `behind`
is what happens then. -/
structure Publishes (es before : List Event) (s : Service) (behind : List Event) : Prop where
  split : es = before ++ .offer s :: behind
  accepted : ∃ r', (replay {} before).register s = .ok r'

/-- Whether a service has been published under a name. -/
def Taken (es : List Event) (name : String) : Prop :=
  ∃ before s behind, Publishes es before s behind ∧ s.name = name

/-! ## One event -/

/-- **When a service is accepted**: under an exported name that has not been taken. -/
theorem register_eq_ok : r.register s = .ok r' ↔
    ServiceName.isExported s.name ∧ r.services.get? s.name = none ∧
      ⟨r.services.insert s.name s⟩ = r' := by
  rw [register]
  by_cases hexported : ServiceName.isExported s.name
  · cases h : r.services.get? s.name <;> simp [hexported]
  · simp [hexported]

/-- **Why a service is refused**: for its name, or else because the name has been taken. -/
theorem register_eq_error {e : ServeError} : r.register s = .error e ↔
    (¬ ServiceName.isExported s.name ∧ e = .invalidServiceName s.name) ∨
      (ServiceName.isExported s.name ∧ (∃ s', r.services.get? s.name = some s') ∧
        e = .duplicateService s.name) := by
  rw [register]
  by_cases hexported : ServiceName.isExported s.name
  · cases h : r.services.get? s.name <;> simp [hexported, eq_comm]
  · simp [hexported, eq_comm]

theorem after_offer_of_ok (h : r.register s = .ok r') : r.after (.offer s) = r' := by
  simp only [after, h]

theorem after_offer_of_error {e : ServeError} (h : r.register s = .error e) :
    r.after (.offer s) = r := by
  simp only [after, h]

/-- A service stays where it is whatever is offered. -/
theorem get?_after_offer {name : String} (h : r.services.get? name = some s) (s' : Service) :
    (r.after (.offer s')).services.get? name = some s := by
  cases hregister : r.register s' with
  | error e => rw [after_offer_of_error hregister, h]
  | ok r' =>
    rw [after_offer_of_ok hregister]
    obtain ⟨-, hfree, rfl⟩ := register_eq_ok.mp hregister
    have hne : s'.name ≠ name := by
      rintro rfl
      cases hfree.symm.trans h
    rw [Mapping.get?_insert, if_neg hne, h]

/-- A service that is accepted stands under its name. -/
theorem get?_of_register (h : r.register s = .ok r') : r'.services.get? s.name = some s := by
  obtain ⟨-, -, rfl⟩ := register_eq_ok.mp h
  rw [Mapping.get?_insert, if_pos rfl]

/-- **An event leaves a service the same**, and counts its own calls. -/
theorem called_after {name : String} (h : r.services.get? name = some s) (e : Event) :
    ∃ s', (r.after e).services.get? name = some s' ∧
      s.Called s' fun method => (e.isCallOf name method).toNat := by
  cases e with
  | offer s' => exact ⟨s, get?_after_offer h s', .refl s⟩
  | call p =>
    have hget := get?_invoke r p name
    by_cases hown : p.service = name
    · rw [if_pos hown, h, Option.map_some] at hget
      refine ⟨_, hget, rfl, ?_⟩
      intro method
      rw [Service.find?, Mapping.get?_modify]
      by_cases hmethod : p.method.name = method
      · simp [Event.isCallOf, Prepared.isOf, hown, hmethod, Service.find?]
      · simp [Event.isCallOf, Prepared.isOf, hmethod, Service.find?]
    · rw [if_neg hown, h] at hget
      refine ⟨s, hget, ?_⟩
      simpa [Event.isCallOf, Prepared.isOf, hown] using Service.Called.refl s

/-! ## Many events -/

/-- **A service that is published stays**, with its methods, whose counters count their own calls.
-/
theorem called_replay {name : String} (h : r.services.get? name = some s) (es : List Event) :
    ∃ s', (r.replay es).services.get? name = some s' ∧
      s.Called s' fun method => es.countP (Event.isCallOf name method) := by
  induction es generalizing r s with
  | nil => exact ⟨s, h, .refl s⟩
  | cons e es ih =>
    obtain ⟨s₁, h₁, hfirst⟩ := called_after h e
    obtain ⟨s₂, h₂, hmore⟩ := ih h₁
    refine ⟨s₂, h₂, ?_⟩
    have hcount : (fun method => (e :: es).countP (Event.isCallOf name method)) =
        fun method => (e.isCallOf name method).toNat + es.countP (Event.isCallOf name method) := by
      funext method
      rw [List.countP_cons, Nat.add_comm]
      cases e.isCallOf name method <;> rfl
    exact hcount ▸ hfirst.trans hmore

variable {es before behind : List Event}

theorem Publishes.concat (h : Publishes es before s behind) (e : Event) :
    Publishes (es ++ [e]) before s (behind ++ [e]) where
  split := by rw [h.split, List.append_assoc, List.cons_append]
  accepted := h.accepted

/-- **A service that is published in a history** is in the registry behind it. -/
theorem Publishes.called (h : Publishes es before s behind) :
    ∃ s', (replay {} es).services.get? s.name = some s' ∧
      s.Called s' fun method => behind.countP (Event.isCallOf s.name method) := by
  obtain ⟨rfl, r', haccepted⟩ := h
  rw [replay_append]
  refine called_replay ?_ behind
  rw [after_offer_of_ok haccepted]
  exact get?_of_register haccepted

theorem Taken.concat {name : String} (h : Taken es name) (e : Event) : Taken (es ++ [e]) name := by
  obtain ⟨before, s, behind, hpublishes, hname⟩ := h
  exact ⟨before, s, behind ++ [e], hpublishes.concat e, hname⟩

/-- Every service in the registry has been published. -/
theorem taken_of_get? {name : String} (h : (replay {} es).services.get? name = some s') :
    Taken es name := by
  induction es using List.reverseRecOn generalizing s' with
  | nil => cases h
  | append_singleton es e ih =>
    rw [replay_append] at h
    cases e with
    | offer s₁ =>
      replace h : ((replay {} es).after (.offer s₁)).services.get? name = some s' := h
      cases hregister : (replay {} es).register s₁ with
      | error why =>
        rw [after_offer_of_error hregister] at h
        exact (ih h).concat _
      | ok r' =>
        rw [after_offer_of_ok hregister] at h
        by_cases hname : s₁.name = name
        · exact ⟨es, s₁, [], ⟨rfl, r', hregister⟩, hname⟩
        · obtain ⟨-, -, rfl⟩ := register_eq_ok.mp hregister
          rw [Mapping.get?_insert, if_neg hname] at h
          exact (ih h).concat _
    | call p =>
      replace h : ((replay {} es).invoke p).1.services.get? name = some s' := h
      rw [get?_invoke] at h
      split at h
      · obtain ⟨s₀, hs₀, -⟩ := Option.map_eq_some_iff.mp h
        exact (ih hs₀).concat _
      · exact (ih h).concat _

/-- **The names that have been taken** are those under which a service is found. -/
theorem taken_iff {name : String} :
    Taken es name ↔ ∃ s', (replay {} es).services.get? name = some s' := by
  constructor
  · rintro ⟨before, s, behind, h, rfl⟩
    obtain ⟨s', hs', -⟩ := h.called
    exact ⟨s', hs'⟩
  · rintro ⟨s', h⟩
    exact taken_of_get? h

/-- Under a name that has been taken nothing is accepted. -/
theorem Taken.not_accepted (h : Taken es s.name) : ¬ ∃ r', (replay {} es).register s = .ok r' := by
  rintro ⟨r', haccepted⟩
  obtain ⟨s', hs'⟩ := taken_iff.mp h
  cases hs'.symm.trans (register_eq_ok.mp haccepted).2.1

/-- **Under one name one service is published, once.** -/
theorem Publishes.unique {before' behind' : List Event} (h : Publishes es before s behind)
    (h' : Publishes es before' s' behind') (hname : s'.name = s.name) :
    before' = before ∧ s' = s ∧ behind' = behind := by
  rcases List.append_eq_append_iff.mp (h'.split.symm.trans h.split) with
    ⟨more, hbefore, hmore⟩ | ⟨more, hbefore, hmore⟩
  · cases more with
    | nil =>
      obtain ⟨hevent, rfl⟩ := List.cons.inj hmore
      exact ⟨by simpa using hbefore.symm, Event.offer.inj hevent, rfl⟩
    | cons e more =>
      -- the other one would have come first, and taken the name
      obtain ⟨rfl, -⟩ := List.cons.inj hmore
      exact absurd h.accepted (Taken.not_accepted ⟨_, _, _, ⟨hbefore, h'.accepted⟩, hname⟩)
  · cases more with
    | nil =>
      obtain ⟨hevent, rfl⟩ := List.cons.inj hmore
      exact ⟨by simpa using hbefore, (Event.offer.inj hevent).symm, rfl⟩
    | cons e more =>
      obtain ⟨rfl, -⟩ := List.cons.inj hmore
      exact absurd h'.accepted (Taken.not_accepted ⟨_, _, _, ⟨hbefore, h.accepted⟩, hname.symm⟩)

/-! ## Resolving -/

/-- **When a request is resolved**: if a service and a method of the names in it are there. -/
theorem resolve_eq_ok {request : String} {m : Method} : r.resolve request = .ok m ↔
    ∃ service method s, ServiceName.split request = some (service, method) ∧
      r.services.get? service = some s ∧ s.find? method = some m := by
  rw [resolve]
  constructor
  · intro h
    cases hlookup : r.lookup request with
    | error e =>
      rw [hlookup] at h
      cases h
    | ok found =>
      rw [hlookup] at h
      obtain rfl := Except.ok.inj h
      obtain ⟨method, s, hfound⟩ := lookup_eq_ok.mp hlookup
      exact ⟨_, method, s, hfound⟩
  · rintro ⟨service, method, s, hfound⟩
    rw [lookup_eq_ok.mpr ⟨method, s, hfound⟩]
    rfl

/-- **What has been resolved once is always resolved so**, to a method that counts its own calls. -/
theorem resolve_replay {request : String} {m : Method} (h : r.resolve request = .ok m) :
    ∃ service method, ServiceName.split request = some (service, method) ∧
      ∀ es, (r.replay es).resolve request =
        .ok { m with
          calls := m.calls + .ofNat (es.countP (Event.isCallOf service method)) } := by
  obtain ⟨service, method, s, hsplit, hs, hm⟩ := resolve_eq_ok.mp h
  refine ⟨service, method, hsplit, ?_⟩
  intro es
  obtain ⟨s', hs', hcalled⟩ := called_replay hs es
  exact resolve_eq_ok.mpr
    ⟨service, method, s', hsplit, hs', by rw [hcalled.find?, hm, Option.map_some]⟩

/-! ## The main statement -/

/-- **The first service of a name wins, and the last method.** Whatever has happened to a registry
that was empty at first:

- a service that is offered to it is refused for its name if that is not exported; else it is
  refused just if the name has been taken, and accepted just if it has not; and if it is refused,
  the registry stays as it is;
- a service that has been published is found under its name, the same but for the calls that have
  been made of its methods, and no other one has been published under that name, before or behind
  it; and what is found under a name has been published under it;
- a request that is resolved now is resolved to the same method whatever happens behind, and the
  counter of that method moves with its own calls, in 64 bits.

And the methods of a service are those that have been given to it under exported names, of several
under one name the last one. -/
theorem first_offer_wins :
    (∀ es : List Event,
      (∀ s : Service,
        ((replay {} es).register s = .error (.invalidServiceName s.name) ↔
          ¬ ServiceName.isExported s.name) ∧
        ((replay {} es).register s = .error (.duplicateService s.name) ↔
          ServiceName.isExported s.name ∧ Taken es s.name) ∧
        ((∃ r', (replay {} es).register s = .ok r') ↔
          ServiceName.isExported s.name ∧ ¬ Taken es s.name) ∧
        ∀ e, (replay {} es).register s = .error e → replay {} (es ++ [.offer s]) = replay {} es) ∧
      (∀ before s behind, Publishes es before s behind →
        (∃ s', (replay {} es).services.get? s.name = some s' ∧
          s.Called s' fun method => behind.countP (Event.isCallOf s.name method)) ∧
        ∀ before' s' behind', Publishes es before' s' behind' → s'.name = s.name →
          before' = before ∧ s' = s ∧ behind' = behind) ∧
      (∀ name s', (replay {} es).services.get? name = some s' → Taken es name) ∧
      ∀ request m, (replay {} es).resolve request = .ok m →
        ∃ service method, ServiceName.split request = some (service, method) ∧
          ∀ more, (replay {} (es ++ more)).resolve request =
            .ok { m with
              calls := m.calls + .ofNat (more.countP (Event.isCallOf service method)) }) ∧
    ∀ (name : String) (given : List Method),
      (given.foldl Service.method (Service.named name)).name = name ∧
      ∀ method, (given.foldl Service.method (Service.named name)).find? method =
        if ServiceName.isExported method then (given.filter (·.name = method)).getLast?
        else none := by
  refine ⟨?_, fun name given => ⟨Service.name_foldl_method name given,
    Service.find?_foldl_method name given⟩⟩
  intro es
  refine ⟨?_, fun _ _ _ h => ⟨h.called, fun _ _ _ h' hname => h.unique h' hname⟩,
    fun _ _ => taken_of_get?, ?_⟩
  · intro s
    refine ⟨?_, ?_, ?_, ?_⟩
    · simp [register_eq_error]
    · simp [register_eq_error, taken_iff]
    · simp [register_eq_ok, taken_iff, ← Option.eq_none_iff_forall_ne_some]
    · intro e herror
      rw [replay_append]
      exact after_offer_of_error herror
  · intro request m h
    obtain ⟨service, method, hsplit, hlater⟩ := resolve_replay h
    refine ⟨service, method, hsplit, ?_⟩
    intro more
    rw [replay_append]
    exact hlater more

/-- A call of the method `Foo.Sum`. -/
def sumCall : Prepared :=
  ⟨"Foo", .make "Sum" Demo.argument Demo.reply Demo.sumPlan, Demo.arguments 1 2⟩

/-- Rivals of the service `Foo`, between two calls of it. -/
def rivals : List Event :=
  [.offer (.named "Foo"), .call sumCall, .offer (.named "foo"), .call sumCall]

theorem first_offer_wins_rivals :
    (replay {} [.offer Demo.service]).register (.named "Foo") = .error (.duplicateService "Foo") ∧
    (replay {} [.offer Demo.service]).register (.named "foo") =
      .error (.invalidServiceName "foo") ∧
    ∃ m, (replay {} [.offer Demo.service]).resolve "Foo.Sum" = .ok m ∧ m.calls = 0 ∧
      (replay {} ([.offer Demo.service] ++ rivals)).resolve "Foo.Sum" =
        .ok { m with calls := 2 } := by
  obtain ⟨hanswer, -, -, hresolved⟩ := first_offer_wins.1 [.offer Demo.service]
  have htaken : Taken [.offer Demo.service] "Foo" := ⟨[], Demo.service, [], ⟨rfl, _, rfl⟩, rfl⟩
  obtain ⟨service, method, hsplit, hmore⟩ :=
    hresolved "Foo.Sum" (.make "Sum" Demo.argument Demo.reply Demo.sumPlan) rfl
  obtain ⟨rfl, rfl⟩ : "Foo" = service ∧ "Sum" = method := by
    simpa using (show ServiceName.split "Foo.Sum" = some ("Foo", "Sum") by decide).symm.trans hsplit
  refine ⟨(hanswer _).2.1.mpr ⟨by decide, htaken⟩, (hanswer _).1.mpr (by decide), _, rfl, rfl, ?_⟩
  exact hmore rivals

end Registry

end WireCall
