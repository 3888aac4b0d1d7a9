import WireCall.Proofs.Registry
import WireCall.Proofs.Results

/-!
# Registries that have been published

A registry is *published* if services have been registered in it one after another, each of them
built by adding methods that nobody has called (`Registry.Published`). Then every method stands
under its own name (`Registry.Proper`), which no call changes, and a request that can be prepared
names the service and the method of its call (`Registry.Proper.split_of_prepare`).

The counter of a method is looked up under both names (`Registry.calls?`). A call counts
for its own method, and for no other one (`Registry.calls?_invoke`).
-/

namespace WireCall

/-- **A service that has been built**: methods have been added to it, one after another, that nobody
has called. -/
inductive Service.Built : Service → Prop
  | named (name : String) : (Service.named name).Built
  | method {s : Service} {m : Method} (h : s.Built) (hcalls : m.calls = 0) : (s.method m).Built

/-- The methods of a service that has been built stand under their own names, and have not been
called. -/
theorem Service.Built.found {s : Service} (h : s.Built) {name : String} {m : Method}
    (hm : s.find? name = some m) : m.name = name ∧ m.calls = 0 := by
  induction h with
  | named => cases hm
  | method _ hcalls ih =>
    simp only [Service.method] at hm
    split at hm
    · rw [Service.find?, Mapping.get?_insert] at hm
      split at hm
      · rename_i hname
        obtain rfl := Option.some.inj hm
        exact ⟨hname, hcalls⟩
      · exact ih hm
    · exact ih hm

/-- Whether a call is one of the method of these names. -/
def Prepared.isOf (p : Prepared) (service method : String) : Bool :=
  p.service = service ∧ p.method.name = method

namespace Registry

/-- **A registry that has been published**: services that had been built have been registered in it,
one after another. -/
inductive Published : Registry → Prop
  | empty : Published {}
  | register {r r' : Registry} {s : Service} (h : Published r) (hbuilt : s.Built)
      (hregister : r.register s = .ok r') : Published r'

variable {r r' : Registry}

theorem Published.built (h : r.Published) {name : String} {s : Service}
    (hs : r.services.get? name = some s) : s.Built := by
  induction h with
  | empty => cases hs
  | register _ hbuilt hregister ih =>
    rw [Registry.register] at hregister
    repeat' split at hregister
    all_goals cases hregister
    rw [Mapping.get?_insert] at hs
    split at hs
    · obtain rfl := Option.some.inj hs
      exact hbuilt
    · exact ih hs

/-- Whether every method stands under its own name. -/
def Proper (r : Registry) : Prop :=
  ∀ service s name m, r.services.get? service = some s → s.find? name = some m → m.name = name

theorem Published.proper (h : r.Published) : r.Proper :=
  fun _ _ _ _ hs hm => ((h.built hs).found hm).1

theorem Proper.alike (h : r.Proper) (halike : r.Alike r') : r'.Proper := by
  intro service s' name m' hs' hm'
  obtain ⟨s, m, hs, hm, n, rfl⟩ := halike.exists_method hs' hm'
  exact h service s name m hs hm

/-- **What is found under the name in a request**, if anything. -/
theorem lookup_eq_ok {request service : String} {m : Method} :
    r.lookup request = .ok (service, m) ↔ ∃ method s,
      ServiceName.split request = some (service, method) ∧
        r.services.get? service = some s ∧ s.find? method = some m := by
  constructor
  · intro h
    rw [lookup] at h
    split at h
    · cases h
    · rename_i hsplit
      split at h
      · cases h
      · rename_i s hs
        split at h
        · cases h
        · rename_i hm
          obtain ⟨rfl, rfl⟩ := Prod.mk.inj (Except.ok.inj h)
          exact ⟨_, s, hsplit, hs, hm⟩
  · rintro ⟨method, s, hsplit, hs, hm⟩
    simp only [lookup, hsplit, hs, hm]

/-- **A request that can be prepared** names the service and the method of its call. -/
theorem Proper.split_of_prepare (h : r.Proper) {c : Codec} {request : String} {body : Bytes}
    {p : Prepared} (hp : r.prepare c request body = .ok p) :
    ServiceName.split request = some (p.service, p.method.name) := by
  obtain ⟨⟨service, m⟩, hlookup, hp⟩ := bind_eq_ok.mp hp
  obtain ⟨argument, -, hp⟩ := bind_eq_ok.mp hp
  obtain rfl := Except.ok.inj hp
  obtain ⟨method, s, hsplit, hs, hm⟩ := lookup_eq_ok.mp hlookup
  rw [hsplit, h _ _ _ _ hs hm]

/-! ## How often a method has been called -/

/-- What the counter of the method of these names shows, if there is one. -/
def calls? (r : Registry) (service method : String) : Option UInt64 :=
  (r.services.get? service).bind fun s => (s.find? method).map Method.calls

theorem Published.calls?_eq (h : r.Published) {service method : String} {n : UInt64}
    (hn : r.calls? service method = some n) : n = 0 := by
  obtain ⟨s, hs, hn⟩ := Option.bind_eq_some_iff.mp hn
  obtain ⟨m, hm, rfl⟩ := Option.map_eq_some_iff.mp hn
  exact ((h.built hs).found hm).2

/-- Registries that are alike have counters for the same methods. -/
theorem Alike.exists_calls? (h : r.Alike r') {service method : String} {n : UInt64}
    (hn : r'.calls? service method = some n) : ∃ n₀, r.calls? service method = some n₀ := by
  obtain ⟨s', hs', hn⟩ := Option.bind_eq_some_iff.mp hn
  obtain ⟨m', hm', rfl⟩ := Option.map_eq_some_iff.mp hn
  obtain ⟨s, m, hs, hm, -⟩ := h.exists_method hs' hm'
  exact ⟨m.calls, by simp [calls?, hs, hm]⟩

/-- What a call makes of the services. -/
theorem get?_invoke (r : Registry) (p : Prepared) (service : String) :
    (r.invoke p).1.services.get? service =
      if p.service = service then (r.services.get? service).map fun s =>
        { s with
          memory := (p.method.handler (r.memory p.service) p.argument).1
          methods := s.methods.modify p.method.name fun m => { m with calls := m.calls + 1 } }
      else r.services.get? service :=
  Mapping.get?_modify _ _ _ _

/-- **A call counts for its own method**, and for no other one. -/
theorem calls?_invoke (r : Registry) (p : Prepared) (service method : String) :
    (r.invoke p).1.calls? service method =
      (r.calls? service method).map (· + .ofNat (p.isOf service method).toNat) := by
  rw [calls?, calls?, get?_invoke]
  by_cases hown : p.service = service
  · cases r.services.get? service with
    | none => simp
    | some s =>
      simp only [if_pos hown, Option.map_some, Option.bind_some, Service.find?,
        Mapping.get?_modify]
      by_cases hname : p.method.name = method
      · cases s.methods.get? method <;> simp [Prepared.isOf, hown, hname]
      · cases s.methods.get? method <;> simp [Prepared.isOf, hname]
  · simp [Prepared.isOf, hown]

end Registry

end WireCall
