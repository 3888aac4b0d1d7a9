import WireCall.Proofs.Run
import WireCall.Proofs.Server.Connections

/-!
# What a call leaves as it was

A call counts in its method and may change the memory of its service. Everything else about the
registry stays (`Registry.alike_invoke`), so a request is resolved and prepared in the same way
before and after any calls (`Registry.Alike.prepare`), and on a server nothing but calls changes the
registry (`Server.alike_step`).
-/

namespace WireCall

/-- Whether two methods are the same, apart from how often they have been called. -/
def Method.Alike (m m' : Method) : Prop := ∃ n, m' = { m with calls := n }

/-- Whether two services have the same methods. -/
def Service.Alike (s s' : Service) : Prop :=
  ∀ name, Option.Rel Method.Alike (s.find? name) (s'.find? name)

/-- **Two registries are alike** if they have the same services, with the same methods. -/
def Registry.Alike (r r' : Registry) : Prop :=
  ∀ name, Option.Rel Service.Alike (r.services.get? name) (r'.services.get? name)

/-- The same call, of a method that has been called so often. -/
def Prepared.counting (p : Prepared) (n : UInt64) : Prepared :=
  ⟨p.service, { p.method with calls := n }, p.argument⟩

namespace Method.Alike

theorem refl (m : Method) : m.Alike m := ⟨m.calls, rfl⟩

theorem trans {m m' m'' : Method} (h : m.Alike m') (h' : m'.Alike m'') : m.Alike m'' := by
  obtain ⟨_, rfl⟩ := h
  obtain ⟨n, rfl⟩ := h'
  exact ⟨n, rfl⟩

end Method.Alike

/-! ## Optional things that are alike -/

section Rel

variable {α : Type} {R : α → α → Prop}

theorem rel_refl (h : ∀ a, R a a) (o : Option α) : Option.Rel R o o := by
  cases o with
  | none => exact .none
  | some a => exact .some (h a)

theorem rel_trans (h : ∀ {a b c}, R a b → R b c → R a c) {o o' o'' : Option α}
    (h₁ : Option.Rel R o o') (h₂ : Option.Rel R o' o'') : Option.Rel R o o'' := by
  cases h₁ with
  | none => exact h₂
  | some hab =>
    cases h₂ with
    | some hbc => exact .some (h hab hbc)

/-- A change under one key to something alike. -/
theorem Mapping.rel_modify (h : ∀ a, R a a) {f : α → α} (hf : ∀ a, R a (f a)) (m : Mapping α)
    (key k : String) : Option.Rel R (m.get? k) ((m.modify key f).get? k) := by
  rw [Mapping.get?_modify]
  split
  · cases m.get? k with
    | none => exact .none
    | some a => exact .some (hf a)
  · exact rel_refl h _

end Rel

namespace Service.Alike

theorem refl (s : Service) : s.Alike s := fun _ => rel_refl Method.Alike.refl _

theorem trans {s s' s'' : Service} (h : s.Alike s') (h' : s'.Alike s'') : s.Alike s'' :=
  fun name => rel_trans (R := Method.Alike) (fun h h' => h.trans h') (h name) (h' name)

end Service.Alike

namespace Registry

namespace Alike

variable {r r' r'' : Registry}

theorem refl (r : Registry) : r.Alike r := fun _ => rel_refl Service.Alike.refl _

theorem trans (h : r.Alike r') (h' : r'.Alike r'') : r.Alike r'' :=
  fun name => rel_trans (R := Service.Alike) (fun h h' => h.trans h') (h name) (h' name)

/-- A method of the one registry is one of the other, apart from how often it has been called. -/
theorem exists_method (h : r.Alike r') {service name : String} {s' : Service} {m' : Method}
    (hs' : r'.services.get? service = some s') (hm' : s'.find? name = some m') :
    ∃ s m, r.services.get? service = some s ∧ s.find? name = some m ∧ m.Alike m' := by
  have hservice := h service
  rw [hs'] at hservice
  generalize hs : r.services.get? service = o at hservice
  cases hservice with
  | @some s _ hservice =>
    have hmethod := hservice name
    rw [hm'] at hmethod
    generalize hm : s.find? name = o at hmethod
    cases hmethod with
    | @some m _ hmethod => exact ⟨s, m, rfl, hm, hmethod⟩

/-! ## Resolving and preparing -/

/-- A request is resolved in the same way. -/
theorem lookup (h : r.Alike r') (request : String) :
    (∃ e, r.lookup request = .error e ∧ r'.lookup request = .error e) ∨
      ∃ service m n, r.lookup request = .ok (service, m) ∧
        r'.lookup request = .ok (service, { m with calls := n }) := by
  simp only [Registry.lookup]
  split
  · exact .inl ⟨_, rfl, rfl⟩
  · rename_i service method _
    have hservice := h service
    generalize r.services.get? service = o at hservice
    generalize r'.services.get? service = o' at hservice
    cases hservice with
    | none => exact .inl ⟨_, rfl, rfl⟩
    | some hs =>
      rename_i s s'
      have hmethod := hs method
      simp only
      generalize s.find? method = o at hmethod
      generalize s'.find? method = o' at hmethod
      cases hmethod with
      | none => exact .inl ⟨_, rfl, rfl⟩
      | some hm =>
        obtain ⟨n, rfl⟩ := hm
        exact .inr ⟨service, _, n, rfl, rfl⟩

/-- **A request is prepared in the same way.** -/
theorem prepare (h : r.Alike r') (c : Codec) (request : String) (body : Bytes) :
    (∃ e, r.prepare c request body = .error e ∧ r'.prepare c request body = .error e) ∨
      ∃ p n, r.prepare c request body = .ok p ∧
        r'.prepare c request body = .ok (p.counting n) := by
  simp only [Registry.prepare]
  rcases h.lookup request with ⟨e, he, he'⟩ | ⟨service, m, n, hm, hm'⟩
  · exact .inl ⟨e, by rw [he]; rfl, by rw [he']; rfl⟩
  · rw [hm, hm']
    cases hdecode : c.decode m.argument.shape body with
    | error e =>
      refine .inl ⟨.readArgument e, ?_, ?_⟩
      · simp only [bind, Except.bind, hdecode]
        rfl
      · simp only [bind, Except.bind, hdecode]
        rfl
    | ok argument =>
      refine .inr ⟨⟨service, m, argument⟩, n, ?_, ?_⟩
      · simp only [bind, Except.bind, hdecode]
        rfl
      · simp only [bind, Except.bind, hdecode]
        rfl

end Alike

/-- **A call leaves the registry alike.** -/
theorem alike_invoke (r : Registry) (p : Prepared) : r.Alike (r.invoke p).1 := by
  intro name
  refine Mapping.rel_modify Service.Alike.refl ?_ _ _ _
  intro s method
  exact Mapping.rel_modify Method.Alike.refl (fun m => ⟨m.calls + 1, rfl⟩) _ _ _

end Registry

namespace Server

variable {s s' : Server}

/-- **Every step leaves the registry alike.** -/
theorem alike_step {a : Action} (hstep : s.step a = some s') : s.registry.Alike s'.registry := by
  rcases (spares_of_step hstep).registry with h | ⟨i, t, p, -, h⟩
  · rw [h]
    exact .refl _
  · rw [h]
    exact Registry.alike_invoke _ _

theorem alike_of_run {actions : List Action} (hrun : s.run actions = some s') :
    s.registry.Alike s'.registry :=
  Run.keeps (fun {m _ _} (h : s.registry.Alike m.registry) hstep => h.trans (alike_step hstep))
    (.refl _) hrun

end Server

end WireCall
