/-!
# Names of services and methods

A service or a method can be called from outside only under an *exported* name: an identifier that
starts with an upper-case letter, in ASCII. A request names both with a dot between them, and as no
exported name has a dot, cutting at the last one finds them again (`ServiceName.split_append`). A
service that is not named takes the short name of its receiver's type.
-/

namespace WireCall

namespace ServiceName

/-- Whether a character may follow the first one of an exported name. -/
def isWordChar (c : Char) : Bool := c.isAlphanum || c = '_'

/-- Whether a name can be called from outside. -/
def isExported (name : String) : Bool :=
  match name.toList with
  | [] => false
  | c :: rest => c.isUpper && rest.all isWordChar

/-! ## The name in a request -/

/-- What stands before and behind the last dot. -/
def splitChars : List Char → Option (List Char × List Char)
  | [] => none
  | c :: rest =>
    match splitChars rest with
    | some (before, behind) => some (c :: before, behind)
    | none => if c = '.' then some ([], rest) else none

/-- The service and the method that a request names. -/
def split (name : String) : Option (String × String) :=
  (splitChars name.toList).map fun p => (String.ofList p.1, String.ofList p.2)

theorem splitChars_eq_none_iff {cs : List Char} : splitChars cs = none ↔ '.' ∉ cs := by
  induction cs with
  | nil => simp [splitChars]
  | cons c rest ih =>
    simp only [splitChars]
    split
    · rename_i heq
      have : '.' ∈ rest := Decidable.byContradiction fun h => by
        rw [ih.mpr h] at heq
        cases heq
      simp [this]
    · rename_i heq
      by_cases hc : c = '.' <;> simp [hc, ih.mp heq, eq_comm]

/-- The parts put together again give the name, and the last one has no dot. -/
theorem splitChars_eq_some_iff {cs before behind : List Char} :
    splitChars cs = some (before, behind) ↔ cs = before ++ '.' :: behind ∧ '.' ∉ behind := by
  induction cs generalizing before behind with
  | nil => simp [splitChars]
  | cons c rest ih =>
    simp only [splitChars]
    split
    · rename_i b e heq
      obtain ⟨hrest, hdot⟩ := ih.mp heq
      constructor
      · intro h
        obtain ⟨rfl, rfl⟩ := Prod.mk.inj (Option.some.inj h)
        exact ⟨by simp [hrest], hdot⟩
      · rintro ⟨h, hb⟩
        cases before with
        | nil =>
          obtain ⟨-, rfl⟩ := List.cons.inj h
          exact absurd (by simp [hrest]) hb
        | cons x before =>
          obtain ⟨rfl, hc⟩ := List.cons.inj h
          have := ih.mpr ⟨hc, hb⟩
          rw [heq] at this
          obtain ⟨rfl, rfl⟩ := Prod.mk.inj (Option.some.inj this)
          rfl
    · rename_i heq
      have hno := splitChars_eq_none_iff.mp heq
      constructor
      · intro h
        split at h
        · rename_i hc
          obtain ⟨rfl, rfl⟩ := Prod.mk.inj (Option.some.inj h)
          exact ⟨by simp [hc], hno⟩
        · cases h
      · rintro ⟨h, -⟩
        cases before with
        | nil =>
          obtain ⟨rfl, rfl⟩ := List.cons.inj h
          simp
        | cons x before =>
          obtain ⟨-, rfl⟩ := List.cons.inj h
          exact absurd (by simp) hno

/-- A service and a method without a dot are found again in the name made of them. -/
theorem split_append {service method : String} (h : '.' ∉ method.toList) :
    split (service ++ "." ++ method) = some (service, method) := by
  have : splitChars (service ++ "." ++ method).toList = some (service.toList, method.toList) :=
    splitChars_eq_some_iff.mpr ⟨by simp, h⟩
  simp only [split, this, Option.map_some, String.ofList_toList]

/-! ## The name of a type -/

/-- What follows the last double colon, if there is one. -/
def pathEnd? : List Char → Option (List Char)
  | [] => none
  | c :: rest =>
    match pathEnd? rest with
    | some e => some e
    | none => if c = ':' ∧ rest.head? = some ':' then some rest.tail else none

/-- The last part of the path of a type, without what stands in angle brackets. -/
def ofType (path : String) : String :=
  let base := path.toList.takeWhile (· ≠ '<')
  String.ofList ((pathEnd? base).getD base)

end ServiceName

end WireCall
