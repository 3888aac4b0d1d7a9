import WireCall.Proofs.Registry.History

/-!
# The name in a request

A request names a service and a method with a dot between them, and is cut at its last dot. As no
dot stands in the name of a service or a method that can be found, this is the only way in which the
names of the two can be put together to the name in the request; so the method that is found is the
one that is meant, and if none is found the reason tells what is missing (`Registry.resolve_exact`).
-/

namespace WireCall

namespace ServiceName

/-- An exported name has no dot. -/
theorem dot_notMem {name : String} (h : isExported name) : '.' ∉ name.toList := by
  rw [isExported] at h
  split at h
  · cases h
  · rename_i c rest hname
    rw [Bool.and_eq_true, List.all_eq_true] at h
    rw [hname, List.mem_cons, not_or]
    refine ⟨?_, fun hdot => ?_⟩
    · rintro rfl
      exact absurd h.1 (by decide)
    · exact absurd (h.2 '.' hdot) (by decide)

/-- A name is cut at its last dot. -/
theorem split_eq_some_iff {name service method : String} : split name = some (service, method) ↔
    name = service ++ "." ++ method ∧ '.' ∉ method.toList := by
  constructor
  · intro h
    obtain ⟨⟨before, behind⟩, hchars, hparts⟩ := Option.map_eq_some_iff.mp h
    obtain ⟨rfl, rfl⟩ := Prod.mk.inj hparts
    obtain ⟨hname, hdot⟩ := splitChars_eq_some_iff.mp hchars
    exact ⟨String.toList_inj.mp (by simp [hname]), by simpa using hdot⟩
  · rintro ⟨rfl, hdot⟩
    exact split_append hdot

theorem split_eq_none_iff {name : String} : split name = none ↔ '.' ∉ name.toList := by
  rw [split, Option.map_eq_none_iff, splitChars_eq_none_iff]

end ServiceName

/-- The methods of a service that has been built have exported names. -/
theorem Service.Built.exported {s : Service} (h : s.Built) {name : String} {m : Method}
    (hm : s.find? name = some m) : ServiceName.isExported name := by
  induction h with
  | named => cases hm
  | @method _ m' _ _ ih =>
    simp only [Service.method] at hm
    split at hm
    · rename_i hexported
      rw [Service.find?, Mapping.get?_insert] at hm
      split at hm
      · rename_i hname
        exact hname ▸ hexported
      · exact ih hm
    · exact ih hm

namespace Registry

variable {r : Registry} {es : List Event} {service : String} {s : Service}

/-- Whether a method is found under the names of a service and its own. -/
def Holds (r : Registry) (service method : String) (m : Method) : Prop :=
  ∃ s, r.services.get? service = some s ∧ s.find? method = some m

/-- What is found under a name was accepted under it, and has been called since. -/
theorem exists_offer (h : (replay {} es).services.get? service = some s) :
    ∃ s₀ n, .offer s₀ ∈ es ∧ s₀.name = service ∧ ServiceName.isExported service ∧
      s₀.Called s n := by
  obtain ⟨before, s₀, behind, hpublishes, rfl⟩ := taken_of_get? h
  obtain ⟨s', hs', hcalled⟩ := hpublishes.called
  obtain rfl := Option.some.inj (hs'.symm.trans h)
  obtain ⟨r', haccepted⟩ := hpublishes.accepted
  refine ⟨s₀, _, ?_, rfl, (register_eq_ok.mp haccepted).1, hcalled⟩
  rw [hpublishes.split]
  exact List.mem_append_right _ List.mem_cons_self

/-- **Services and methods stand under their own names**, which have no dot. -/
theorem named_of_get? (hbuilt : ∀ s, .offer s ∈ es → s.Built)
    (h : (replay {} es).services.get? service = some s) :
    s.name = service ∧ '.' ∉ service.toList ∧
      ∀ method m, s.find? method = some m → m.name = method ∧ '.' ∉ method.toList := by
  obtain ⟨s₀, n, hoffer, hname, hexported, hcalled⟩ := exists_offer h
  refine ⟨hcalled.name.trans hname, ServiceName.dot_notMem hexported, ?_⟩
  intro method m hm
  rw [hcalled.find?] at hm
  obtain ⟨m₀, hm₀, rfl⟩ := Option.map_eq_some_iff.mp hm
  exact ⟨((hbuilt s₀ hoffer).found hm₀).1,
    ServiceName.dot_notMem ((hbuilt s₀ hoffer).exported hm₀)⟩

/-- **Why a request is not resolved**: its name cannot be cut, or the service is missing, or else
the method. -/
theorem resolve_eq_error {request : String} {e : ServeError} : r.resolve request = .error e ↔
    (ServiceName.split request = none ∧ e = .illFormed request) ∨
      ∃ before behind, ServiceName.split request = some (before, behind) ∧
        ((r.services.get? before = none ∧ e = .serviceNotFound before) ∨
          ∃ s, r.services.get? before = some s ∧ s.find? behind = none ∧
            e = .methodNotFound before behind) := by
  rw [resolve, lookup]
  cases hsplit : ServiceName.split request with
  | none => simp [Except.map, eq_comm]
  | some names =>
    obtain ⟨before, behind⟩ := names
    cases hs : r.services.get? before with
    | none => simp [Except.map, hs, eq_comm]
    | some s => cases hm : s.find? behind <;> simp [Except.map, hs, hm, eq_comm]

/-! ## The main statement -/

/-- **A request is resolved to the method that it means.** Take a registry that was empty at first,
and to which services were offered that had been built, while calls were made. In it services and
methods stand under their own names, and no dot is in any of these; so no two methods have the same
name when that of the service and a dot are put in front. A request is resolved to a method just if
its name is the one put together of the names under which that method is found. Otherwise the reason
is

- that there is no dot in the name, just if there is none;
- that there is no service of the name that stands before the last dot, just if there is none;
- and in the remaining case that this service has no method of the name that stands behind it. -/
theorem resolve_exact {es : List Event} (hbuilt : ∀ s, .offer s ∈ es → s.Built) :
    (∀ service s, (replay {} es).services.get? service = some s →
      s.name = service ∧ '.' ∉ service.toList ∧
        ∀ method m, s.find? method = some m → m.name = method ∧ '.' ∉ method.toList) ∧
    (∀ service method m service' method' m', (replay {} es).Holds service method m →
      (replay {} es).Holds service' method' m' →
      service ++ "." ++ method = service' ++ "." ++ method' →
        service = service' ∧ method = method') ∧
    ∀ request : String,
      (∀ m, (replay {} es).resolve request = .ok m ↔ ∃ service method,
        request = service ++ "." ++ method ∧ (replay {} es).Holds service method m) ∧
      ∀ e, (replay {} es).resolve request = .error e ↔
        ('.' ∉ request.toList ∧ e = .illFormed request) ∨
          ∃ before behind, request = before ++ "." ++ behind ∧ '.' ∉ behind.toList ∧
            (((replay {} es).services.get? before = none ∧ e = .serviceNotFound before) ∨
              ∃ s, (replay {} es).services.get? before = some s ∧ s.find? behind = none ∧
                e = .methodNotFound before behind) := by
  have hdotless : ∀ {service method : String} {m : Method},
      (replay {} es).Holds service method m → '.' ∉ method.toList := by
    rintro service method m ⟨s, hs, hm⟩
    exact ((named_of_get? hbuilt hs).2.2 method m hm).2
  refine ⟨fun _ _ => named_of_get? hbuilt, ?_, ?_⟩
  · intro service method m service' method' m' h h' hname
    have hsplit : ServiceName.split (service ++ "." ++ method) = some (service, method) :=
      ServiceName.split_append (hdotless h)
    rw [hname, ServiceName.split_append (hdotless h')] at hsplit
    obtain ⟨rfl, rfl⟩ := Prod.mk.inj (Option.some.inj hsplit)
    exact ⟨rfl, rfl⟩
  · intro request
    constructor
    · intro m
      rw [resolve_eq_ok]
      constructor
      · rintro ⟨service, method, s, hsplit, hs, hm⟩
        exact ⟨service, method, (ServiceName.split_eq_some_iff.mp hsplit).1, s, hs, hm⟩
      · rintro ⟨service, method, rfl, s, hs, hm⟩
        exact ⟨service, method, s, ServiceName.split_append (hdotless ⟨s, hs, hm⟩), hs, hm⟩
    · intro e
      simp only [resolve_eq_error, ServiceName.split_eq_none_iff, ServiceName.split_eq_some_iff,
        and_assoc]

/-- What names that are nearly right come to. -/
theorem resolve_exact_demo :
    (∀ s, Event.offer s ∈ [.offer Demo.service] → s.Built) ∧
    (∃ m, (replay {} [.offer Demo.service]).resolve "Foo.Sum" = .ok m ∧ m.name = "Sum") ∧
    (replay {} [.offer Demo.service]).resolve "FooSum" = .error (.illFormed "FooSum") ∧
    (replay {} [.offer Demo.service]).resolve "Foo.Sum.Sum" =
      .error (.serviceNotFound "Foo.Sum") ∧
    (replay {} [.offer Demo.service]).resolve "Foo." = .error (.methodNotFound "Foo" "") := by
  have hbuilt : ∀ s, Event.offer s ∈ [.offer Demo.service] → s.Built := by
    intro s hs
    obtain rfl := Event.offer.inj (List.mem_singleton.mp hs)
    exact .method (.method (.named "Foo") rfl) rfl
  obtain ⟨-, -, hresolve⟩ := resolve_exact hbuilt
  refine ⟨hbuilt, ⟨_, ((hresolve _).1 _).mpr ⟨"Foo", "Sum", by decide, _, rfl, rfl⟩, rfl⟩,
    ((hresolve _).2 _).mpr (.inl ⟨by decide, rfl⟩),
    ((hresolve _).2 _).mpr (.inr ⟨"Foo.Sum", "Sum", by decide, by decide, .inl ⟨rfl, rfl⟩⟩),
    ((hresolve _).2 _).mpr (.inr ⟨"Foo", "", by decide, by decide, .inr ⟨_, rfl, rfl, rfl⟩⟩)⟩

end Registry

end WireCall
