import Mathlib.Data.List.Forall2

/-!
# Results

What is known of the parts of a computation that may fail, if it is known how the whole of it has
turned out.
-/

namespace WireCall

variable {α β ε ε' : Type}

/-- A success is one whatever becomes of the errors. -/
theorem ok_of_mapError {x : Except ε α} {f : ε → ε'} {a : α} (h : x.mapError f = .ok a) :
    x = .ok a := by
  cases x with
  | error e => cases h
  | ok b => exact congrArg Except.ok (Except.ok.inj h)

theorem ok_of_toOption {x : Except ε α} {a : α} (h : x.toOption = some a) : x = .ok a := by
  cases x with
  | error e => cases h
  | ok b => exact congrArg Except.ok (Option.some.inj h)

/-- An error is one that has become of another one. -/
theorem exists_of_mapError {x : Except ε α} {f : ε → ε'} {e' : ε'}
    (h : x.mapError f = .error e') : ∃ e, x = .error e ∧ f e = e' := by
  cases x with
  | error e => exact ⟨e, rfl, Except.error.inj h⟩
  | ok a => cases h

/-- Two computations in a row succeed if both of them do. -/
theorem bind_eq_ok {x : Except ε α} {f : α → Except ε β} {b : β} :
    x >>= f = .ok b ↔ ∃ a, x = .ok a ∧ f a = .ok b := by
  cases x with
  | error e =>
    refine iff_of_false nofun ?_
    rintro ⟨a, ha, -⟩
    cases ha
  | ok a =>
    refine ⟨fun h => ⟨a, rfl, h⟩, ?_⟩
    rintro ⟨a', ha, h⟩
    obtain rfl := Except.ok.inj ha
    exact h

/-- Two computations in a row fail if the first one does, or else the second one. -/
theorem bind_eq_error {x : Except ε α} {f : α → Except ε β} {e : ε} :
    x >>= f = .error e ↔ x = .error e ∨ ∃ a, x = .ok a ∧ f a = .error e := by
  cases x with
  | error e' =>
    refine ⟨fun h => .inl (congrArg Except.error (Except.error.inj h)), ?_⟩
    rintro (h | ⟨a, ha, -⟩)
    · exact congrArg Except.error (Except.error.inj h)
    · cases ha
  | ok a =>
    refine ⟨fun h => .inr ⟨a, rfl, h⟩, ?_⟩
    rintro (h | ⟨a', ha, h⟩)
    · cases h
    · obtain rfl := Except.ok.inj ha
      exact h

/-- A list is done if each of its members is. -/
theorem forall₂_of_mapM {f : α → Except ε β} {l : List α} {parts : List β}
    (h : l.mapM f = .ok parts) : List.Forall₂ (fun a b => f a = .ok b) l parts := by
  induction l generalizing parts with
  | nil =>
    obtain rfl : [] = parts := Except.ok.inj h
    exact .nil
  | cons a l ih =>
    rw [List.mapM_cons] at h
    obtain ⟨b, hb, h⟩ := bind_eq_ok.mp h
    obtain ⟨rest, hrest, h⟩ := bind_eq_ok.mp h
    obtain rfl : b :: rest = parts := Except.ok.inj h
    exact .cons hb (ih hrest)

/-- What a member of the list has become is among the results. -/
theorem mem_of_mapM {f : α → Except ε β} {l : List α} {parts : List β} (h : l.mapM f = .ok parts)
    {a : α} {b : β} (ha : a ∈ l) (hb : f a = .ok b) : b ∈ parts := by
  have hparts := forall₂_of_mapM h
  clear h
  induction hparts with
  | nil => cases ha
  | @cons a' b' l parts hfirst _ ih =>
    rcases List.mem_cons.mp ha with rfl | ha
    · obtain rfl := Except.ok.inj (hb.symm.trans hfirst)
      exact List.mem_cons_self
    · exact List.mem_cons_of_mem b' (ih ha)

theorem exists_mapM {f : α → Except ε β} {l : List α} (h : ∀ a ∈ l, ∃ b, f a = .ok b) :
    ∃ parts, l.mapM f = .ok parts := by
  induction l with
  | nil => exact ⟨[], rfl⟩
  | cons a l ih =>
    obtain ⟨b, hb⟩ := h a List.mem_cons_self
    obtain ⟨rest, hrest⟩ := ih fun x hx => h x (List.mem_cons_of_mem a hx)
    refine ⟨b :: rest, ?_⟩
    rw [List.mapM_cons]
    exact bind_eq_ok.mpr ⟨b, hb, bind_eq_ok.mpr ⟨rest, hrest, rfl⟩⟩

end WireCall
