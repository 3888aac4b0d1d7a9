import WireCall.Codec
import WireCall.Demo
import WireCall.Header
import WireCall.Proofs.Shape.Compact
import WireCall.Proofs.Shape.JsonParts

/-!
# Every value comes back

A shape is *faithful* (`Shape.isFaithful`) if its values can be told apart in both encodings: it has
no doubles and no values without a fixed shape in it, no option whose value may itself be written as
`null`, and different names for the fields of a record and for the choices. All that travels in
requests and replies is of such a shape (`everyday`), and so are the records of it.

The values of a faithful shape can be written in both encodings, and each of them is read back
(`round_trip`): from its compact bytes whatever follows them, and from its JSON text with any blanks
around it, but not if something else follows behind the blanks.
-/

namespace WireCall

/-! ## Faithful shapes -/

/-- Whether the text of a value may be the literal that stands for none. -/
def Shape.mayBeNull : Shape → Bool
  | .unit | .optional _ | .double | .json | .unwritable _ => true
  | _ => false

mutual

/-- **Whether the values of a shape can be told apart** in both encodings. -/
def Shape.isFaithful : Shape → Bool
  | .unit | .bool | .natural _ | .integer _ | .text => true
  | .double | .json | .unwritable _ => false
  | .optional s => s.isFaithful && !s.mayBeNull
  | .sequence s | .mapping s => s.isFaithful
  | .pair a b => a.isFaithful && b.isFaithful
  | .choice first more => decide (first :: more).Nodup && decide (more.length < Nat.pow 2 32)
  | .record _ fields => decide (JsonForm.names fields).Nodup && fields.isFaithful

/-- Whether this is so for the fields of a record. -/
def Fields.isFaithful : Fields → Bool
  | .done => true
  | .field _ _ s more => s.isFaithful && more.isFaithful

end

mutual

/-- How deep lists and objects nest in the text of a value. -/
def Shape.nesting : Shape → Nat
  | .optional s => s.nesting
  | .sequence s | .mapping s => s.nesting + 1
  | .pair a b => max a.nesting b.nesting + 1
  | .record _ fields => fields.nesting + 1
  | _ => 0

/-- How deep they nest in the fields of a record. -/
def Fields.nesting : Fields → Nat
  | .done => 0
  | .field _ _ s more => max s.nesting more.nesting

end

mutual

/-- That all lengths in a value are numbers of 64 bits, as those of values in a memory are. -/
def Shape.Short : (s : Shape) → s.Value → Prop
  | .text, (t : String) => (Bytes.ofText t).length < Nat.pow 2 64
  | .optional s, (o : Option s.Value) => ∀ a ∈ o, s.Short a
  | .sequence s, (l : List s.Value) => l.length < Nat.pow 2 64 ∧ ∀ a ∈ l, s.Short a
  | .mapping s, (m : Mapping s.Value) =>
    m.entries.length < Nat.pow 2 64 ∧
      ∀ p ∈ m.entries, (Bytes.ofText p.1).length < Nat.pow 2 64 ∧ s.Short p.2
  | .pair a b, (p : a.Value × b.Value) => a.Short p.1 ∧ b.Short p.2
  | .record _ fields, (v : fields.Value) => fields.Short v
  | _, _ => True

/-- That all lengths in the fields of a record are. -/
def Fields.Short : (fs : Fields) → fs.Value → Prop
  | .done, _ => True
  | .field _ _ s more, (v : s.Value × more.Value) => s.Short v.1 ∧ more.Short v.2

end

/-! ## The compact encoding -/

namespace Compact

mutual

/-- Every value of a faithful shape has its bytes. -/
theorem exists_write (s : Shape) (hs : s.isFaithful = true) (v : s.Value) :
    ∃ b, write s v = .ok b := by
  match s, v with
  | .unit, _ => exact ⟨_, rfl⟩
  | .bool, _ => exact ⟨_, rfl⟩
  | .natural w, _ => exact ⟨_, rfl⟩
  | .integer w, _ => exact ⟨_, rfl⟩
  | .text, _ => exact ⟨_, rfl⟩
  | .optional s, none => exact ⟨_, rfl⟩
  | .optional s, some a =>
    rw [Shape.isFaithful, Bool.and_eq_true] at hs
    obtain ⟨b, hb⟩ := exists_write s hs.1 a
    exact ⟨_, bind_eq_ok.mpr ⟨b, hb, rfl⟩⟩
  | .sequence s, (l : List s.Value) =>
    rw [Shape.isFaithful] at hs
    obtain ⟨parts, hparts⟩ := exists_mapM fun a (_ : a ∈ l) => exists_write s hs a
    exact ⟨_, bind_eq_ok.mpr ⟨parts, hparts, rfl⟩⟩
  | .mapping s, (m : Mapping s.Value) =>
    rw [Shape.isFaithful] at hs
    obtain ⟨parts, hparts⟩ := exists_mapM (l := m.entries)
        (f := fun p => do let b ← write s p.2; pure (writeText p.1 ++ b)) fun p _ => by
      obtain ⟨b, hb⟩ := exists_write s hs p.2
      exact ⟨_, bind_eq_ok.mpr ⟨b, hb, rfl⟩⟩
    exact ⟨_, bind_eq_ok.mpr ⟨parts, hparts, rfl⟩⟩
  | .pair s t, (x, y) =>
    rw [Shape.isFaithful, Bool.and_eq_true] at hs
    obtain ⟨b, hb⟩ := exists_write s hs.1 x
    obtain ⟨b', hb'⟩ := exists_write t hs.2 y
    exact ⟨_, bind_eq_ok.mpr ⟨b, hb, bind_eq_ok.mpr ⟨b', hb', rfl⟩⟩⟩
  | .choice first more, _ => exact ⟨_, rfl⟩
  | .record name fields, v =>
    rw [Shape.isFaithful, Bool.and_eq_true] at hs
    exact exists_writeFields fields hs.2 v

theorem exists_writeFields (fs : Fields) (hfs : fs.isFaithful = true) (v : fs.Value) :
    ∃ b, writeFields fs v = .ok b := by
  match fs, v with
  | .done, _ => exact ⟨_, rfl⟩
  | .field name presence s more, (x, xs) =>
    rw [Fields.isFaithful, Bool.and_eq_true] at hfs
    obtain ⟨b, hb⟩ := exists_write s hfs.1 x
    obtain ⟨b', hb'⟩ := exists_writeFields more hfs.2 xs
    exact ⟨_, bind_eq_ok.mpr ⟨b, hb, bind_eq_ok.mpr ⟨b', hb', rfl⟩⟩⟩

end

mutual

/-- **Every short value of a faithful shape reads back** from its bytes. -/
theorem readsBack (s : Shape) (hs : s.isFaithful = true) (v : s.Value) (hv : s.Short v) :
    ReadsBack s v := by
  match s, v with
  | .unit, () => exact .unit
  | .bool, (x : Bool) => exact .bool x
  | .natural w, x => exact .natural x
  | .integer w, x => exact .integer x
  | .text, (t : String) => exact .text hv
  | .optional s, (o : Option s.Value) =>
    rw [Shape.isFaithful, Bool.and_eq_true] at hs
    exact .optional fun a ha => readsBack s hs.1 a (hv a ha)
  | .sequence s, (l : List s.Value) =>
    rw [Shape.isFaithful] at hs
    exact .sequence hv.1 fun a ha => readsBack s hs a (hv.2 a ha)
  | .mapping s, (m : Mapping s.Value) =>
    rw [Shape.isFaithful] at hs
    exact .mapping hv.1 (fun p hp => (hv.2 p hp).1)
      fun p hp => readsBack s hs p.2 (hv.2 p hp).2
  | .pair s t, (p : s.Value × t.Value) =>
    rw [Shape.isFaithful, Bool.and_eq_true] at hs
    exact .pair (readsBack s hs.1 p.1 hv.1) (readsBack t hs.2 p.2 hv.2)
  | .choice first more, i =>
    rw [Shape.isFaithful, Bool.and_eq_true] at hs
    exact .choice (of_decide_eq_true hs.2) i
  | .record name fields, v =>
    rw [Shape.isFaithful, Bool.and_eq_true] at hs
    exact .record (fieldsReadBack fields hs.2 v hv)

theorem fieldsReadBack (fs : Fields) (hfs : fs.isFaithful = true) (v : fs.Value)
    (hv : fs.Short v) : FieldsReadBack fs v := by
  match fs, v with
  | .done, _ => trivial
  | .field name presence s more, (x, xs) =>
    rw [Fields.isFaithful, Bool.and_eq_true] at hfs
    exact ⟨readsBack s hfs.1 x hv.1, fieldsReadBack more hfs.2 xs hv.2⟩

end

end Compact

/-! ## The JSON text -/

namespace JsonForm

open Json (Scan Stops)

mutual

/-- Every value of a faithful shape has its text. -/
theorem exists_write (s : Shape) (hs : s.isFaithful = true) (v : s.Value) :
    ∃ b, write s v = .ok b := by
  match s, v with
  | .unit, _ => exact ⟨_, rfl⟩
  | .bool, _ => exact ⟨_, rfl⟩
  | .natural w, _ => exact ⟨_, rfl⟩
  | .integer w, _ => exact ⟨_, rfl⟩
  | .text, _ => exact ⟨_, rfl⟩
  | .optional s, none => exact ⟨_, rfl⟩
  | .optional s, some a =>
    rw [Shape.isFaithful, Bool.and_eq_true] at hs
    exact exists_write s hs.1 a
  | .sequence s, (l : List s.Value) =>
    rw [Shape.isFaithful] at hs
    obtain ⟨parts, hparts⟩ := exists_mapM fun a (_ : a ∈ l) => exists_write s hs a
    exact ⟨_, bind_eq_ok.mpr ⟨parts, hparts, rfl⟩⟩
  | .mapping s, (m : Mapping s.Value) =>
    rw [Shape.isFaithful] at hs
    obtain ⟨parts, hparts⟩ := exists_mapM (l := m.entries)
        (f := fun p => do let b ← write s p.2; pure (p.1, b)) fun p _ => by
      obtain ⟨b, hb⟩ := exists_write s hs p.2
      exact ⟨_, bind_eq_ok.mpr ⟨b, hb, rfl⟩⟩
    exact ⟨_, bind_eq_ok.mpr ⟨parts, hparts, rfl⟩⟩
  | .pair s t, (x, y) =>
    rw [Shape.isFaithful, Bool.and_eq_true] at hs
    obtain ⟨b, hb⟩ := exists_write s hs.1 x
    obtain ⟨b', hb'⟩ := exists_write t hs.2 y
    exact ⟨_, bind_eq_ok.mpr ⟨b, hb, bind_eq_ok.mpr ⟨b', hb', rfl⟩⟩⟩
  | .choice first more, _ => exact ⟨_, rfl⟩
  | .record name fields, v =>
    rw [Shape.isFaithful, Bool.and_eq_true] at hs
    obtain ⟨parts, hparts⟩ := exists_writeFields fields hs.2 v
    exact ⟨_, bind_eq_ok.mpr ⟨parts, hparts, rfl⟩⟩

theorem exists_writeFields (fs : Fields) (hfs : fs.isFaithful = true) (v : fs.Value) :
    ∃ parts, writeFields fs v = .ok parts := by
  match fs, v with
  | .done, _ => exact ⟨_, rfl⟩
  | .field name presence s more, (x, xs) =>
    rw [Fields.isFaithful, Bool.and_eq_true] at hfs
    obtain ⟨b, hb⟩ := exists_write s hfs.1 x
    obtain ⟨parts, hparts⟩ := exists_writeFields more hfs.2 xs
    exact ⟨_, bind_eq_ok.mpr ⟨b, hb, bind_eq_ok.mpr ⟨parts, hparts, rfl⟩⟩⟩

end

/-- **How the text of a value begins**: not with a blank, nor with the end of a list, and with the
letter of the literal for none only if it may be that literal. -/
theorem exists_cons_of_write (s : Shape) (hs : s.isFaithful = true) {v : s.Value} {b : Bytes}
    (hb : write s v = .ok b) :
    ∃ c more, b = c :: more ∧ Json.isBlank c = false ∧ c ≠ 0x5d ∧
      (s.mayBeNull = false → c ≠ 0x6e) := by
  have digits : ∀ n, ∃ c more, Numeral.text (.natural n) = c :: more ∧ Json.isBlank c = false ∧
      c ≠ 0x5d ∧ c ≠ 0x6e := by
    intro n
    obtain ⟨hall, -, c, more, hcons, -⟩ := Json.text_natural n
    have hdigit : Json.isDigit c = true := hall c (by rw [hcons]; exact List.mem_cons_self)
    refine ⟨c, more, hcons, (blank_of_digit hdigit).1, ?_, ?_⟩ <;> rintro rfl <;> cases hdigit
  match s, v with
  | .unit, _ =>
    obtain rfl := Except.ok.inj hb
    exact ⟨_, _, rfl, by decide, by decide, nofun⟩
  | .bool, (x : Bool) =>
    obtain rfl := Except.ok.inj hb
    cases x <;> exact ⟨_, _, rfl, by decide, by decide, fun _ => by decide⟩
  | .natural w, x =>
    obtain rfl := Except.ok.inj hb
    obtain ⟨c, more, hcons, hblank, hend, hletter⟩ := digits x.toNat
    exact ⟨c, more, hcons, hblank, hend, fun _ => hletter⟩
  | .integer w, x =>
    obtain rfl := Except.ok.inj hb
    split
    · exact ⟨_, _, rfl, by decide, by decide, fun _ => by decide⟩
    · obtain ⟨c, more, hcons, hblank, hend, hletter⟩ := digits x.toInt.toNat
      exact ⟨c, more, hcons, hblank, hend, fun _ => hletter⟩
  | .text, _ | .choice _ _, _ =>
    obtain rfl := Except.ok.inj hb
    exact ⟨_, _, rfl, by decide, by decide, fun _ => by decide⟩
  | .optional s, none =>
    obtain rfl := Except.ok.inj hb
    exact ⟨_, _, rfl, by decide, by decide, nofun⟩
  | .optional s, some a =>
    rw [Shape.isFaithful, Bool.and_eq_true] at hs
    obtain ⟨c, more, hcons, hblank, hend, -⟩ := exists_cons_of_write s hs.1 hb
    exact ⟨c, more, hcons, hblank, hend, nofun⟩
  | .sequence s, _ | .mapping s, _ =>
    obtain ⟨parts, -, hb⟩ := bind_eq_ok.mp hb
    obtain rfl := Except.ok.inj hb
    exact ⟨_, _, rfl, by decide, by decide, fun _ => by decide⟩
  | .pair s t, _ =>
    obtain ⟨x, -, hb⟩ := bind_eq_ok.mp hb
    obtain ⟨y, -, hb⟩ := bind_eq_ok.mp hb
    obtain rfl := Except.ok.inj hb
    exact ⟨_, _, rfl, by decide, by decide, fun _ => by decide⟩
  | .record name fields, _ =>
    obtain ⟨parts, -, hb⟩ := bind_eq_ok.mp hb
    obtain rfl := Except.ok.inj hb
    exact ⟨_, _, rfl, by decide, by decide, fun _ => by decide⟩

theorem opens_of_write {s : Shape} (hs : s.isFaithful = true) {v : s.Value} {b : Bytes}
    (hb : write s v = .ok b) : Opens b := by
  obtain ⟨c, more, hcons, hblank, hend, -⟩ := exists_cons_of_write s hs hb
  exact ⟨c, more, hcons, hblank, hend⟩

/-- Texts with commas between them are longer than each of them, and at least as many bytes as there
are texts, but for one. -/
theorem length_joinComma (items : List Bytes) :
    (∀ b ∈ items, b.length ≤ (Json.joinComma items).length) ∧
      items.length ≤ (Json.joinComma items).length + 1 := by
  have htail : (Json.joinComma items).length = (elementTexts items).length - 1 := List.length_tail
  have hall : (∀ b ∈ items, b.length + 1 ≤ (elementTexts items).length) ∧
      items.length ≤ (elementTexts items).length := by
    clear htail
    induction items with
    | nil => exact ⟨nofun, Nat.le_refl 0⟩
    | cons a items ih =>
      have hcons : (elementTexts (a :: items)).length =
          a.length + 1 + (elementTexts items).length := by
        rw [elementTexts, List.flatMap_cons, List.length_append, List.length_cons]
        rfl
      rw [hcons, List.length_cons]
      refine ⟨?_, by omega⟩
      intro b hb
      rcases List.mem_cons.mp hb with rfl | hb
      · omega
      · have := ih.1 b hb
        omega
  refine ⟨fun b hb => ?_, by omega⟩
  have := hall.1 b hb
  omega

/-- A list is longer than its parts, and than there are parts. -/
theorem length_listText (parts : List Bytes) :
    (∀ b ∈ parts, b.length < (Json.listText parts).length) ∧
      parts.length < (Json.listText parts).length := by
  obtain ⟨hparts, hcount⟩ := length_joinComma parts
  have hlength : (Json.listText parts).length = (Json.joinComma parts).length + 2 := by
    simp [Json.listText]
  rw [hlength]
  refine ⟨fun b hb => ?_, by omega⟩
  have := hparts b hb
  omega

/-- An object is longer than the texts of its members, and than there are members. -/
theorem length_objectText (members : List (String × Bytes)) :
    (∀ p ∈ members, p.2.length < (Json.objectText members).length) ∧
      members.length < (Json.objectText members).length := by
  obtain ⟨hparts, hcount⟩ :=
    length_joinComma (members.map fun p => Json.quote p.1 ++ 0x3a :: p.2)
  have hlength : (Json.objectText members).length =
      (Json.joinComma (members.map fun p => Json.quote p.1 ++ 0x3a :: p.2)).length + 2 := by
    simp [Json.objectText]
  rw [List.length_map] at hcount
  rw [hlength]
  refine ⟨fun p hp => ?_, by omega⟩
  have := hparts _ (List.mem_map_of_mem hp)
  rw [List.length_append, List.length_cons] at this
  omega

mutual

/-- **Every value of a faithful shape reads back** from its text, if lists may nest as deep as they
do and have as many parts as the text has bytes. -/
theorem readsBack {limit : Nat} (s : Shape) (hs : s.isFaithful = true) {depth : Nat}
    (hdepth : s.nesting ≤ depth) (v : s.Value) {b : Bytes} (hb : write s v = .ok b)
    (hlimit : b.length < limit) : ReadsBack limit depth s v := by
  match s, v with
  | .unit, () => exact .unit
  | .bool, (x : Bool) => exact .bool x
  | .natural w, x => exact .natural x
  | .integer w, x => exact .integer x
  | .text, (t : String) => exact .text t
  | .optional s, (o : Option s.Value) =>
    rw [Shape.isFaithful, Bool.and_eq_true, Bool.not_eq_true'] at hs
    refine .optional ?_ ?_
    · rintro a rfl
      exact readsBack s hs.1 hdepth a hb hlimit
    · intro a _ b hwrite
      obtain ⟨c, more, hcons, hblank, -, hletter⟩ := exists_cons_of_write s hs.1 hwrite
      exact ⟨c, more, hcons, hblank, hletter hs.2⟩
  | .sequence s, (l : List s.Value) =>
    rw [Shape.isFaithful] at hs
    obtain ⟨depth, rfl⟩ := Nat.exists_eq_add_of_le' (Nat.le_of_add_left_le hdepth)
    obtain ⟨parts, hparts, hb⟩ := bind_eq_ok.mp hb
    obtain rfl := Except.ok.inj hb
    obtain ⟨hlengths, hcount⟩ := length_listText parts
    have hlength := (forall₂_of_mapM hparts).length_eq
    refine .sequence (by omega) ?_ fun a _ b hwrite => opens_of_write hs hwrite
    intro a ha
    obtain ⟨part, hpart⟩ := exists_write s hs a
    have hshort := hlengths part (mem_of_mapM hparts ha hpart)
    exact readsBack s hs (Nat.le_of_succ_le_succ hdepth) a hpart (Nat.lt_trans hshort hlimit)
  | .mapping s, (m : Mapping s.Value) =>
    rw [Shape.isFaithful] at hs
    obtain ⟨depth, rfl⟩ := Nat.exists_eq_add_of_le' (Nat.le_of_add_left_le hdepth)
    obtain ⟨parts, hparts, hb⟩ := bind_eq_ok.mp hb
    obtain rfl := Except.ok.inj hb
    obtain ⟨hlengths, hcount⟩ := length_objectText parts
    have hlength := (forall₂_of_mapM hparts).length_eq
    refine .mapping (by omega) ?_
    intro p hp
    obtain ⟨part, hpart⟩ := exists_write s hs p.2
    have hshort := hlengths (p.1, part)
      (mem_of_mapM hparts hp (bind_eq_ok.mpr ⟨part, hpart, rfl⟩))
    exact readsBack s hs (Nat.le_of_succ_le_succ hdepth) p.2 hpart (Nat.lt_trans hshort hlimit)
  | .pair s t, (p : s.Value × t.Value) =>
    rw [Shape.isFaithful, Bool.and_eq_true] at hs
    obtain ⟨depth, rfl⟩ := Nat.exists_eq_add_of_le' (Nat.le_of_add_left_le hdepth)
    replace hdepth := Nat.max_le.mp (Nat.le_of_succ_le_succ hdepth)
    obtain ⟨x, hx, hb⟩ := bind_eq_ok.mp hb
    obtain ⟨y, hy, hb⟩ := bind_eq_ok.mp hb
    obtain rfl := Except.ok.inj hb
    have hlengths := (length_listText [x, y]).1
    exact .pair
      (readsBack s hs.1 hdepth.1 p.1 hx (Nat.lt_trans (hlengths x (by simp)) hlimit))
      (readsBack t hs.2 hdepth.2 p.2 hy (Nat.lt_trans (hlengths y (by simp)) hlimit))
      (fun b hwrite => opens_of_write hs.1 hwrite) (fun b hwrite => opens_of_write hs.2 hwrite)
  | .choice first more, i =>
    rw [Shape.isFaithful, Bool.and_eq_true] at hs
    exact .choice (of_decide_eq_true hs.1) i
  | .record name fields, v =>
    rw [Shape.isFaithful, Bool.and_eq_true] at hs
    obtain ⟨depth, rfl⟩ := Nat.exists_eq_add_of_le' (Nat.le_of_add_left_le hdepth)
    obtain ⟨parts, hparts, hb⟩ := bind_eq_ok.mp hb
    obtain rfl := Except.ok.inj hb
    obtain ⟨hlengths, hcount⟩ := length_objectText parts
    refine .record (of_decide_eq_true hs.1) ?_ (fieldsReadBack fields hs.2
      (Nat.le_of_succ_le_succ hdepth) v hparts fun p hp => Nat.lt_trans (hlengths p hp) hlimit)
    rw [← map_fst_writeFields hparts, List.length_map]
    omega

theorem fieldsReadBack {limit : Nat} (fs : Fields) (hfs : fs.isFaithful = true) {depth : Nat}
    (hdepth : fs.nesting ≤ depth) (v : fs.Value) {parts : List (String × Bytes)}
    (hparts : writeFields fs v = .ok parts) (hlimit : ∀ p ∈ parts, p.2.length < limit) :
    FieldsReadBack limit depth fs v := by
  match fs, v with
  | .done, _ => trivial
  | .field name presence s more, (x, xs) =>
    rw [Fields.isFaithful, Bool.and_eq_true] at hfs
    replace hdepth := Nat.max_le.mp hdepth
    obtain ⟨b, hb, hparts⟩ := bind_eq_ok.mp hparts
    obtain ⟨parts', hmore, hparts⟩ := bind_eq_ok.mp hparts
    obtain rfl := Except.ok.inj hparts
    exact ⟨readsBack s hfs.1 hdepth.1 x hb (hlimit (name, b) List.mem_cons_self),
      fieldsReadBack more hfs.2 hdepth.2 xs hmore fun p hp =>
        hlimit p (List.mem_cons_of_mem _ hp)⟩

end

/-! ## Blanks around a text -/

variable {front : Bytes} {α β : Type}

theorem dropBlanks_append (hfront : ∀ c ∈ front, Json.isBlank c = true) (t : Bytes) :
    Json.dropBlanks (front ++ t) = Json.dropBlanks t :=
  List.dropWhile_append_of_pos hfront

/-- A scanner that passes blanks passes those at the front. -/
theorem bind_front {x : Scan α} {t : Bytes} (h : x (front ++ t) = x t) (f : α → Scan β) :
    (x >>= f) (front ++ t) = (x >>= f) t := by
  simp only [bind, StateT.bind, h]

theorem peek_front (hfront : ∀ c ∈ front, Json.isBlank c = true) (t : Bytes) :
    Scan.peek (front ++ t) = Scan.peek t := by
  simp only [Scan.peek, dropBlanks_append hfront]

theorem firstByte_front (hfront : ∀ c ∈ front, Json.isBlank c = true) (t : Bytes) :
    firstByte (front ++ t) = firstByte t :=
  bind_front (peek_front hfront t) _

/-- **Blanks in front of a value are passed.** -/
theorem read_front {limit depth : Nat} {s : Shape} (hs : s.isFaithful = true)
    (hfront : ∀ c ∈ front, Json.isBlank c = true) (t : Bytes) :
    read limit s depth (front ++ t) = read limit s depth t := by
  cases s with
  | double | json | unwritable why => cases hs
  | optional s => exact bind_front (peek_front hfront t) _
  | unit | bool | natural w | integer w | text | sequence s | mapping s | pair a b
  | choice first more | record name fields => exact bind_front (firstByte_front hfront t) _

/-- A blank ends a number. -/
theorem stops_of_blank {c : UInt8} (hc : Json.isBlank c = true) (rest : Bytes) :
    Stops (c :: rest) := by
  intro d hd
  obtain rfl := Option.some.inj hd
  simp only [Json.isBlank, Bool.or_eq_true, decide_eq_true_eq] at hc
  rcases hc with ((rfl | rfl) | rfl) | rfl <;> decide

variable {s : Shape} {v : s.Value} {b back : Bytes}

/-- A whole text is read up to the blanks behind the value. -/
theorem read_around {limit : Nat} (hs : s.isFaithful = true) (hdepth : s.nesting ≤ Json.maxDepth)
    (hb : write s v = .ok b) (hlimit : b.length < limit)
    (hfront : ∀ c ∈ front, Json.isBlank c = true) {rest : Bytes} (hrest : Stops rest) :
    read limit s Json.maxDepth (front ++ b ++ rest) = .ok (v, rest) := by
  rw [List.append_assoc, read_front hs hfront]
  exact readsBack s hs hdepth v hb hlimit b hb rest hrest

/-- **A value is that of its text**, with blanks around it. -/
theorem decode_around (hs : s.isFaithful = true) (hdepth : s.nesting ≤ Json.maxDepth)
    (hb : write s v = .ok b) (hfront : ∀ c ∈ front, Json.isBlank c = true)
    (hback : ∀ c ∈ back, Json.isBlank c = true) : decode s (front ++ b ++ back) = .ok v := by
  have hlimit : b.length < (front ++ b ++ back).length + 1 := by
    simp only [List.length_append]
    omega
  have hstops : Stops back := by
    cases back with
    | nil => simp [Stops]
    | cons c back => exact stops_of_blank (hback c List.mem_cons_self) back
  have hnothing : Json.dropBlanks back = [] := by
    simpa [Json.dropBlanks] using dropBlanks_append hback []
  simp only [decode, Scan.whole, read_around hs hdepth hb hlimit hfront hstops, hnothing]

/-- **A text is refused** if anything else stands behind the blanks behind a value. -/
theorem decode_trailing (hs : s.isFaithful = true) (hdepth : s.nesting ≤ Json.maxDepth)
    (hb : write s v = .ok b) (hfront : ∀ c ∈ front, Json.isBlank c = true)
    (hback : ∀ c ∈ back, Json.isBlank c = true) (hsome : back ≠ []) {x : UInt8}
    (hx : Json.isBlank x = false) (more : Bytes) :
    ∃ e, decode s (front ++ b ++ (back ++ x :: more)) = .error e := by
  have hlimit : b.length < (front ++ b ++ (back ++ x :: more)).length + 1 := by
    simp only [List.length_append]
    omega
  have hstops : Stops (back ++ x :: more) := by
    cases back with
    | nil => exact absurd rfl hsome
    | cons c back => exact stops_of_blank (hback c List.mem_cons_self) _
  have hleft : Json.dropBlanks (back ++ x :: more) = x :: more := by
    rw [dropBlanks_append hback]
    exact List.dropWhile_cons_of_neg (by simp [hx])
  simp only [decode, Scan.whole, read_around hs hdepth hb hlimit hfront hstops, hleft]
  exact ⟨_, rfl⟩

end JsonForm

/-! ## The main statement -/

/-- **The shapes of what travels**: unit, truth values, integers of all widths, texts, bytes, and
options, lists, mappings and pairs of these; codecs and headers; and the arguments of the
demonstration service. -/
def everyday : List Shape :=
  [.unit, .bool, .natural .w8, .natural .w16, .natural .w32, .natural .w64, .integer .w8,
    .integer .w16, .integer .w32, .integer .w64, .text, .sequence (.natural .w8),
    .optional (.integer .w64), .sequence (.integer .w64), .sequence .text, .mapping (.integer .w64),
    .pair (.integer .w64) .text, Codec.shape, Header.shape, Demo.argumentShape]

/-- The shapes of the fields of a record. -/
def Fields.shapes : Fields → List Shape
  | .done => []
  | .field _ _ s more => s :: more.shapes

theorem everyday_faithful : ∀ s ∈ everyday, s.isFaithful = true ∧ s.nesting ≤ 1 := by
  decide

theorem fields_faithful (fs : Fields) (hfs : ∀ s ∈ fs.shapes, s ∈ everyday) :
    fs.isFaithful = true ∧ fs.nesting ≤ 1 := by
  match fs with
  | .done => exact ⟨rfl, Nat.zero_le 1⟩
  | .field _ _ s more =>
    obtain ⟨hs, hdepth⟩ := everyday_faithful s (hfs s List.mem_cons_self)
    obtain ⟨hmore, hdepth'⟩ := fields_faithful more fun t ht => hfs t (List.mem_cons_of_mem s ht)
    rw [Fields.isFaithful, hs, hmore]
    exact ⟨rfl, Nat.max_le.mpr ⟨hdepth, hdepth'⟩⟩

/-- What travels is of a faithful shape, and so are the records of it. -/
theorem record_faithful {name : String} {fs : Fields} (hnames : (JsonForm.names fs).Nodup)
    (hfs : ∀ s ∈ fs.shapes, s ∈ everyday) :
    (Shape.record name fs).isFaithful = true ∧ (Shape.record name fs).nesting ≤ 2 := by
  obtain ⟨hfields, hdepth⟩ := fields_faithful fs hfs
  refine ⟨?_, Nat.succ_le_succ hdepth⟩
  rw [Shape.isFaithful, decide_eq_true hnames, hfields]
  rfl

/-- **Every value comes back**, in both encodings, if its shape is faithful and lists and objects do
not nest deeper in it than a reader of JSON follows:

- it has compact bytes, and is read back from them whatever follows them, if no length in it is
  beyond 64 bits;
- it has a JSON text, and is read back from this text with any blanks in front of it and behind it;
  but if there are blanks behind it and then any other byte, the text is refused. -/
theorem round_trip {s : Shape} (hs : s.isFaithful = true) (hdepth : s.nesting ≤ Json.maxDepth)
    (v : s.Value) :
    (∃ b, Codec.compact.encode s v = .ok b ∧
      (s.Short v → ∀ rest, Codec.compact.decode s (b ++ rest) = .ok v)) ∧
    ∃ b, Codec.json.encode s v = .ok b ∧ ∀ front back : Bytes,
      (∀ c ∈ front, Json.isBlank c = true) → (∀ c ∈ back, Json.isBlank c = true) →
        Codec.json.decode s (front ++ b ++ back) = .ok v ∧
        ∀ x more, back ≠ [] → Json.isBlank x = false →
          ∃ e, Codec.json.decode s (front ++ b ++ (back ++ x :: more)) = .error e := by
  obtain ⟨bytes, hbytes⟩ := Compact.exists_write s hs v
  obtain ⟨text, htext⟩ := JsonForm.exists_write s hs v
  refine ⟨⟨bytes, ?_, ?_⟩, text, ?_, ?_⟩
  · rw [Codec.encode, hbytes]
    rfl
  · intro hshort rest
    rw [Codec.decode, Compact.decode_append hbytes (Compact.readsBack s hs v hshort)]
    rfl
  · rw [Codec.encode, JsonForm.encode, htext]
    rfl
  · intro front back hfront hback
    refine ⟨?_, ?_⟩
    · rw [Codec.decode, JsonForm.decode_around hs hdepth htext hfront hback]
      rfl
    · intro x more hsome hx
      obtain ⟨e, he⟩ := JsonForm.decode_trailing hs hdepth htext hfront hback hsome hx more
      refine ⟨.json e, ?_⟩
      rw [Codec.decode, he]
      rfl

/-- A record with fields of several kinds. -/
def sampleShape : Shape :=
  .record "Sample"
    (.field "names" .required (.sequence .text)
      (.field "scale" .required (.optional (.integer .w64))
        (.field "table" .required (.mapping (.integer .w64))
          (.field "entry" .required (.pair (.integer .w64) .text) .done))))

/-- Texts that have to be escaped or are more bytes than characters, and the integers that are
furthest from zero. -/
def sample : sampleShape.Value :=
  (["", "\"\\/\x01\n\x7f", "é€𝄞"], some (BitVec.intMin 64),
    Mapping.ofList [("b", BitVec.intMax 64), ("a", (-1 : BitVec 64))],
    ((0 : BitVec 64), "null"), ())

theorem round_trip_sample :
    (∀ s ∈ everyday, s.isFaithful = true ∧ s.nesting ≤ Json.maxDepth) ∧
    (∃ b, Codec.compact.encode sampleShape sample = .ok b ∧
      Codec.compact.decode sampleShape (b ++ [0xff]) = .ok sample) ∧
    ∃ b, Codec.json.encode sampleShape sample = .ok b ∧
      Codec.json.decode sampleShape ([0x20] ++ b ++ [0x0a, 0x09]) = .ok sample ∧
      ∃ e, Codec.json.decode sampleShape ([0x20] ++ b ++ ([0x0a, 0x09] ++ [0x2c])) = .error e := by
  have hsample : sampleShape.isFaithful = true ∧ sampleShape.nesting ≤ 2 :=
    record_faithful (by decide) (by simp [Fields.shapes, everyday])
  have hshort : sampleShape.Short sample := by
    have hnames : ∀ t ∈ ["", "\"\\/\x01\n\x7f", "é€𝄞"],
        (Bytes.ofText t).length < Nat.pow 2 64 := by decide +kernel
    have hkeys : ∀ key ∈ (sample.2.2.1 : Mapping (BitVec 64)).keys,
        (Bytes.ofText key).length < Nat.pow 2 64 := by decide +kernel
    have hentry : (Bytes.ofText "null").length < Nat.pow 2 64 := by decide
    refine ⟨⟨by decide, hnames⟩, fun _ _ => trivial, ⟨by decide, ?_⟩, ⟨trivial, hentry⟩, trivial⟩
    intro p hp
    exact ⟨hkeys p.1 (List.mem_map_of_mem hp), trivial⟩
  have hdepth := Nat.le_trans hsample.2 (by decide : 2 ≤ Json.maxDepth)
  obtain ⟨⟨bytes, hbytes, hreads⟩, text, htext, haround⟩ :=
    round_trip hsample.1 hdepth sample
  obtain ⟨hread, hrefused⟩ := haround [0x20] [0x0a, 0x09] (by simp [Json.isBlank])
    (by simp [Json.isBlank])
  refine ⟨?_, ⟨bytes, hbytes, hreads hshort [0xff]⟩, text, htext, hread, ?_⟩
  · intro s hs
    obtain ⟨hfaithful, hnesting⟩ := everyday_faithful s hs
    exact ⟨hfaithful, Nat.le_trans hnesting (by decide)⟩
  · exact hrefused 0x2c [] (by decide) (by decide)

end WireCall
