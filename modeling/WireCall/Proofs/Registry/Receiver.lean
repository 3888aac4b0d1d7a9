import WireCall.Proofs.Registry.History

/-!
# Services that are named after their receivers

A service may take its name from the type of its receiver. The path of a type (`TypePath`) names the
modules around the type, then the type itself, and then its generic arguments, in which there may be
further paths with arguments of their own. Whatever they are, the service gets the name of the type
itself, and it can be registered under no other condition on its name than that this one is exported
(`Registry.register_receiver`).
-/

namespace WireCall

/-- **The path of a type**, with the generic arguments as they are written. -/
structure TypePath where
  modules : List String
  name : String
  arguments : String := ""
  /-- no part of the path looks as if there were more parts, or arguments -/
  plain : ∀ part ∈ modules ++ [name], ':' ∉ part.toList ∧ '<' ∉ part.toList
  /-- the arguments, if there are any, start with an angle bracket -/
  bracketed : arguments = "" ∨ arguments.toList.head? = some '<'

/-- The text of a path. -/
def TypePath.text (p : TypePath) : String :=
  String.intercalate "::" (p.modules ++ [p.name]) ++ p.arguments

namespace ServiceName

variable {last : List Char}

/-! ## The last part of a path -/

theorem pathEnd?_eq_none (h : ':' ∉ last) : pathEnd? last = none := by
  induction last with
  | nil => rfl
  | cons c rest ih =>
    rw [List.mem_cons, not_or] at h
    rw [pathEnd?, ih h.2]
    exact if_neg fun hcolon => h.1 hcolon.1.symm

/-- Behind the last double colon there is the last part. -/
theorem pathEnd?_append (front : List Char) (h : ':' ∉ last) :
    pathEnd? (front ++ ':' :: ':' :: last) = some last := by
  induction front with
  | nil =>
    have hhead : last.head? ≠ some ':' := fun hcolon => h (List.mem_of_head? hcolon)
    have hinner : pathEnd? (':' :: last) = none := by
      rw [pathEnd?, pathEnd?_eq_none h]
      exact if_neg fun hcolon => hhead hcolon.2
    rw [List.nil_append, pathEnd?, hinner]
    rfl
  | cons c front ih => rw [List.cons_append, pathEnd?, ih]

/-- In front of the last part there is nothing, or something that ends in a double colon. -/
theorem intercalate_concat (parts : List (List Char)) (last : List Char) :
    [':', ':'].intercalate (parts ++ [last]) = last ∨
      ∃ front, [':', ':'].intercalate (parts ++ [last]) = front ++ ':' :: ':' :: last := by
  induction parts with
  | nil => exact .inl List.intercalate_singleton
  | cons part parts ih =>
    refine .inr ?_
    obtain ⟨next, more, hmore⟩ : ∃ next more, parts ++ [last] = next :: more :=
      List.exists_cons_of_ne_nil (by simp)
    rw [hmore] at ih
    rw [List.cons_append, hmore, List.intercalate_cons_cons]
    rcases ih with hlast | ⟨front, hfront⟩
    · exact ⟨part, by rw [hlast, List.append_assoc]; rfl⟩
    · exact ⟨part ++ [':', ':'] ++ front, by rw [hfront, List.append_assoc (part ++ _)]⟩

/-- The last part is found where no part has a colon of its own. -/
theorem pathEnd?_intercalate (parts : List (List Char)) (h : ':' ∉ last) :
    (pathEnd? ([':', ':'].intercalate (parts ++ [last]))).getD
      ([':', ':'].intercalate (parts ++ [last])) = last := by
  rcases intercalate_concat parts last with hlast | ⟨front, hfront⟩
  · rw [hlast, pathEnd?_eq_none h]
    rfl
  · rw [hfront, pathEnd?_append front h]
    rfl

/-! ## The arguments -/

theorem notMem_intercalate {c : Char} {parts : List (List Char)} (hc : c ≠ ':')
    (h : ∀ part ∈ parts, c ∉ part) : c ∉ [':', ':'].intercalate parts := by
  induction parts with
  | nil => exact List.not_mem_nil
  | cons part parts ih =>
    rw [List.forall_mem_cons] at h
    cases parts with
    | nil =>
      rw [List.intercalate_singleton]
      exact h.1
    | cons next more =>
      rw [List.intercalate_cons_cons, List.mem_append, List.mem_append]
      rintro ((hpart | hcolon) | hmore)
      · exact h.1 hpart
      · simp [hc] at hcolon
      · exact ih h.2 hmore

/-- What stands in front of the arguments is the path without them. -/
theorem takeWhile_bracketed {path arguments : List Char} (hpath : '<' ∉ path)
    (hbracketed : arguments = [] ∨ arguments.head? = some '<') :
    (path ++ arguments).takeWhile (· ≠ '<') = path := by
  have hall : ∀ c ∈ path, decide (c ≠ '<') = true := fun c hc =>
    decide_eq_true fun heq => hpath (heq ▸ hc)
  rw [List.takeWhile_append_of_pos hall]
  rcases hbracketed with rfl | hhead
  · exact List.append_nil path
  · obtain ⟨rest, rfl⟩ := List.head?_eq_some_iff.mp hhead
    exact List.append_nil path

/-- **The short name of a type** is the last part of its path, whatever its arguments are. -/
theorem ofType_text (p : TypePath) : ofType p.text = p.name := by
  have hparts : ∀ part ∈ p.modules.map String.toList ++ [p.name.toList],
      ':' ∉ part ∧ '<' ∉ part := by
    rw [show [p.name.toList] = [p.name].map String.toList from rfl, ← List.map_append]
    exact List.forall_mem_map.mpr p.plain
  have hbracketed : p.arguments.toList = [] ∨ p.arguments.toList.head? = some '<' :=
    p.bracketed.imp_left fun h => by rw [h]; rfl
  have htext : p.text.toList =
      [':', ':'].intercalate (p.modules.map String.toList ++ [p.name.toList]) ++
        p.arguments.toList := by
    simp [TypePath.text]
  have hpath := notMem_intercalate (c := '<') (by decide) fun part hpart => (hparts part hpart).2
  rw [ofType, htext]
  simp only [takeWhile_bracketed hpath hbracketed]
  rw [pathEnd?_intercalate _ (hparts _ (by simp)).1, String.ofList_toList]

end ServiceName

/-! ## The service -/

/-- **A service that takes its name from its receiver** has the last part of the path of the type as
its name, whatever generic arguments stand behind it and whichever methods are added. To register it
fails for its name if and only if this part is not an exported name. -/
theorem Registry.register_receiver (p : TypePath) (ms : List Method) (r : Registry) :
    (ms.foldl Service.method (Service.ofType p.text)).name = p.name ∧
      ∀ name, r.register (ms.foldl Service.method (Service.ofType p.text)) =
          .error (.invalidServiceName name) ↔
        name = p.name ∧ ¬ ServiceName.isExported p.name := by
  have hname : (ms.foldl Service.method (Service.ofType p.text)).name = p.name :=
    (Service.name_foldl_method _ ms).trans (ServiceName.ofType_text p)
  refine ⟨hname, fun name => ?_⟩
  rw [register_eq_error, hname]
  constructor
  · rintro (⟨hexported, he⟩ | ⟨-, -, he⟩)
    · exact ⟨ServeError.invalidServiceName.inj he, hexported⟩
    · cases he
  · rintro ⟨rfl, hexported⟩
    exact .inl ⟨hexported, rfl⟩

/-- A path in whose arguments there are further paths, with arguments of their own. -/
def nestedPath : TypePath where
  modules := ["a", "b"]
  name := "Map"
  arguments := "<c::Key, (d::e::Cell<u8>, f::G)>"
  plain := by decide
  bracketed := by decide

/-- The path of a type whose name is not exported. -/
def hiddenPath : TypePath where
  modules := []
  name := "map"
  arguments := "<a::Key>"
  plain := by decide
  bracketed := by decide

theorem Registry.register_receiver_nested :
    nestedPath.text = "a::b::Map<c::Key, (d::e::Cell<u8>, f::G)>" ∧
      (Service.ofType nestedPath.text).name = "Map" ∧
      (∀ name, register {} (Service.ofType nestedPath.text) ≠
        .error (.invalidServiceName name)) ∧
      register {} (Service.ofType hiddenPath.text) = .error (.invalidServiceName "map") := by
  obtain ⟨hname, hrefused⟩ := register_receiver nestedPath [] {}
  refine ⟨by decide, hname, ?_, ((register_receiver hiddenPath [] {}).2 _).mpr ⟨rfl, by decide⟩⟩
  intro name h
  exact ((hrefused name).mp h).2 (by decide)

end WireCall
