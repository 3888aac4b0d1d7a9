import WireCall.Proofs.Shape.JsonForm

/-!
# Values put together read back from their JSON text

An option, a list, a pair or a mapping reads back if the values in it do. A list is read element by
element, so each element has to begin like a value (`JsonForm.Opens`): with a blank at its front it
would be read all the same, but the bracket that ends the list must not stand there. An option
must not begin like the literal that stands for none. The entries of a mapping are members of an
object, and are read as those of a record are (`JsonForm.members_eq`).
-/

namespace WireCall

namespace JsonForm

open Json (Scan Stops)

variable {α : Type} {limit depth : Nat} {b rest : Bytes}

/-! ## Options -/

/-- **An option reads back** if its value does and does not look like none. -/
theorem ReadsBack.optional {s : Shape} {o : Option s.Value}
    (hback : ∀ a ∈ o, ReadsBack limit depth s a)
    (hsome : ∀ a ∈ o, ∀ b, write s a = .ok b →
      ∃ c more, b = c :: more ∧ Json.isBlank c = false ∧ c ≠ 0x6e) :
    ReadsBack limit depth (.optional s) o := by
  intro b hb rest hrest
  cases o with
  | none =>
    obtain rfl : Json.nullText = b := Except.ok.inj hb
    rw [Json.nullText, List.cons_append]
    refine (bind_ok (peek_cons (by decide) _)).trans ((bind_ok (skipByte_cons _ _)).trans ?_)
    rw [bind_ok (letters_append _ _)]
    rfl
  | some a =>
    replace hb : write s a = .ok b := hb
    obtain ⟨c, more, hcons, hblank, hletter⟩ := hsome a rfl b hb
    have hread := hback a rfl b hb rest hrest
    rw [hcons, List.cons_append] at hread ⊢
    refine (bind_ok (peek_cons hblank _)).trans ?_
    generalize hnext : some c = next
    split
    · exact absurd (Option.some.inj hnext) hletter
    · rw [bind_ok hread]
      rfl

/-! ## Lists -/

/-- A text that begins like a value, and not like the end of a list. -/
def Opens (b : Bytes) : Prop := ∃ c more, b = c :: more ∧ Json.isBlank c = false ∧ c ≠ 0x5d

theorem nextElement_first (hb : Opens b) (rest : Bytes) :
    Scan.nextElement true (b ++ rest) = .ok (true, b ++ rest) := by
  obtain ⟨c, more, rfl, hblank, hend⟩ := hb
  rw [List.cons_append, Scan.nextElement, bind_ok (peek_cons hblank _)]
  generalize hnext : some c = next
  split
  · cases hnext
  · exact absurd (Option.some.inj hnext) hend
  · rfl

theorem nextElement_more (hb : Opens b) (rest : Bytes) :
    Scan.nextElement false (0x2c :: (b ++ rest)) = .ok (true, b ++ rest) := by
  obtain ⟨c, more, rfl, hblank, hend⟩ := hb
  rw [Scan.nextElement, bind_ok (peek_cons (by decide) _)]
  refine (bind_ok (skipByte_cons 0x2c _)).trans ?_
  rw [List.cons_append, bind_ok (peek_cons hblank _)]
  generalize hnext : some c = next
  split
  · exact absurd (Option.some.inj hnext) hend
  · rfl
  · cases hnext

theorem nextElement_end (first : Bool) (rest : Bytes) :
    Scan.nextElement first (0x5d :: rest) = .ok (false, 0x5d :: rest) := by
  rw [Scan.nextElement, bind_ok (peek_cons (by decide) _)]
  rfl

/-- The texts of elements, each of them with the comma in front. -/
def elementTexts (parts : List Bytes) : Bytes := parts.flatMap fun b => 0x2c :: b

/-- Behind an element stands a comma or the end of the list. -/
theorem stops_elementTexts (parts : List Bytes) (rest : Bytes) :
    Stops (elementTexts parts ++ 0x5d :: rest) := by
  cases parts with
  | nil =>
    intro c hc
    obtain rfl : c = 0x5d := by simpa [elementTexts] using hc.symm
    decide
  | cons b parts =>
    intro c hc
    obtain rfl : c = 0x2c := by simpa [elementTexts] using hc.symm
    decide

theorem elements_end (item : Scan α) (limit : Nat) (first : Bool) (acc : List α) (rest : Bytes) :
    Scan.elements item (limit + 1) first acc (0x5d :: rest) = .ok (acc.reverse, 0x5d :: rest) := by
  rw [Scan.elements, bind_ok (nextElement_end first rest)]
  rfl

/-- An item reads the elements of a list. -/
def Itemized (item : Scan α) (l : List α) (parts : List Bytes) : Prop :=
  List.Forall₂ (fun a b => Opens b ∧ ∀ rest, Stops rest → item (b ++ rest) = .ok (a, rest)) l parts

/-- The elements behind the first one are read up to the end of the list. -/
theorem Itemized.elements_more {item : Scan α} {l : List α} {parts : List Bytes}
    (h : Itemized item l parts) {limit : Nat} (hlimit : parts.length < limit) (acc : List α)
    (rest : Bytes) :
    Scan.elements item limit false acc (elementTexts parts ++ 0x5d :: rest) =
      .ok (acc.reverse ++ l, 0x5d :: rest) := by
  induction h generalizing limit acc with
  | nil =>
    obtain ⟨limit, rfl⟩ := Nat.exists_eq_succ_of_ne_zero (Nat.ne_of_gt hlimit)
    rw [List.append_nil]
    exact elements_end item limit false acc rest
  | @cons a b l parts hfirst _ ih =>
    obtain ⟨limit, rfl⟩ := Nat.exists_eq_succ_of_ne_zero (Nat.ne_of_gt (Nat.zero_lt_of_lt hlimit))
    obtain ⟨hopens, hitem⟩ := hfirst
    have htexts : elementTexts (b :: parts) ++ 0x5d :: rest =
        0x2c :: (b ++ (elementTexts parts ++ 0x5d :: rest)) := by
      simp [elementTexts]
    rw [htexts, Scan.elements, bind_ok (nextElement_more hopens _), if_pos rfl,
      bind_ok (hitem _ (stops_elementTexts parts rest)), ih (Nat.lt_of_succ_lt_succ hlimit),
      List.reverse_cons, List.append_assoc]
    rfl

/-- **The elements of a list** are read up to its end. -/
theorem Itemized.elements {item : Scan α} {l : List α} {parts : List Bytes}
    (h : Itemized item l parts) {limit : Nat} (hlimit : parts.length < limit) (rest : Bytes) :
    Scan.elements item limit true [] (Json.joinComma parts ++ 0x5d :: rest) =
      .ok (l, 0x5d :: rest) := by
  obtain ⟨limit, rfl⟩ := Nat.exists_eq_succ_of_ne_zero (Nat.ne_of_gt (Nat.zero_lt_of_lt hlimit))
  cases h with
  | nil => exact elements_end item limit true [] rest
  | @cons a b l parts hfirst hmore =>
    obtain ⟨hopens, hitem⟩ := hfirst
    have htexts : Json.joinComma (b :: parts) ++ 0x5d :: rest =
        b ++ (elementTexts parts ++ 0x5d :: rest) := by
      simp [Json.joinComma, elementTexts]
    rw [htexts, Scan.elements, bind_ok (nextElement_first hopens _), if_pos rfl,
      bind_ok (hitem _ (stops_elementTexts parts rest)),
      Itemized.elements_more hmore (Nat.lt_of_succ_lt_succ hlimit)]
    rfl

/-- **A list reads back** if its elements do. -/
theorem ReadsBack.sequence {s : Shape} {l : List s.Value} (hlimit : l.length < limit)
    (hback : ∀ a ∈ l, ReadsBack limit depth s a)
    (hopens : ∀ a ∈ l, ∀ b, write s a = .ok b → Opens b) :
    ReadsBack limit (depth + 1) (.sequence s) l := by
  intro b hb rest _
  obtain ⟨parts, hparts, hb⟩ := bind_eq_ok.mp hb
  obtain rfl : Json.listText parts = b := Except.ok.inj hb
  have hitems : Itemized (read limit s depth) l parts := by
    refine ((List.forall₂_and_left ..).mpr
      ⟨fun a ha => And.intro (hback a ha) (hopens a ha), forall₂_of_mapM hparts⟩).imp ?_
    rintro a b ⟨⟨hback, hopens⟩, hwrite⟩
    exact ⟨hopens b hwrite, hback b hwrite⟩
  have hlength : parts.length < limit := (forall₂_of_mapM hparts).length_eq ▸ hlimit
  rw [Json.listText, List.cons_append, List.append_assoc]
  refine (bind_ok (firstByte_cons (by decide) _)).trans ?_
  rw [if_pos rfl, descend, bind_ok (skipByte_cons _ _)]
  exact upTo_ok (hitems.elements hlength rest) rfl

/-- **A pair reads back** if both values in it do. -/
theorem ReadsBack.pair {s t : Shape} {v : s.Value × t.Value} (hfirst : ReadsBack limit depth s v.1)
    (hsecond : ReadsBack limit depth t v.2) (hopens : ∀ b, write s v.1 = .ok b → Opens b)
    (hopens' : ∀ b, write t v.2 = .ok b → Opens b) : ReadsBack limit (depth + 1) (.pair s t) v := by
  intro b hb rest _
  obtain ⟨x, hx, hb⟩ := bind_eq_ok.mp hb
  obtain ⟨y, hy, hb⟩ := bind_eq_ok.mp hb
  obtain rfl : Json.listText [x, y] = b := Except.ok.inj hb
  have htext : Json.listText [x, y] ++ rest = 0x5b :: (x ++ (0x2c :: (y ++ 0x5d :: rest))) := by
    simp [Json.listText, Json.joinComma]
  have hcomma := stops_elementTexts [y] rest
  have hend : Stops (0x5d :: rest) := stops_elementTexts [] rest
  rw [htext]
  refine (bind_ok (firstByte_cons (by decide) _)).trans ?_
  rw [if_pos rfl, descend, bind_ok (skipByte_cons _ _)]
  refine upTo_ok (t := 0x5d :: rest) ?_ rfl
  rw [bind_ok (nextElement_first (hopens x hx) _), if_pos rfl,
    bind_ok (hfirst x hx _ (by simpa [elementTexts] using hcomma)),
    bind_ok (nextElement_more (hopens' y hy) _), if_pos rfl, bind_ok (hsecond y hy _ hend)]
  rfl

/-! ## Mappings -/

/-- Reads the value of an entry, behind its key, and adds the entry to those before it. -/
def addEntry (item : Scan α) (key : String) (acc : List (String × α)) :
    Scan (List (String × α)) := do
  Scan.colon
  let a ← item
  pure ((key, a) :: acc)

/-- The entries of a mapping are read as the members of a record are. -/
theorem members_eq (item : Scan α) (limit : Nat) (first : Bool) (acc : List (String × α)) :
    Scan.members (Scan.memberWith item) limit first acc =
      foldMembers (addEntry item) limit first acc >>= fun entries => pure entries.reverse := by
  induction limit generalizing first acc with
  | zero => rfl
  | succ limit ih =>
    rw [Scan.members, foldMembers, bind_assoc]
    refine bind_congr fun more => ?_
    cases more with
    | false => rfl
    | true =>
      simp only [if_true, bind_assoc, ih]
      simp only [Scan.memberWith, addEntry, bind_assoc, pure_bind]

/-- The members that are written for some entries give these entries. -/
theorem fills_addEntry {item : Scan α} {entries : List (String × α)} {parts : List (String × Bytes)}
    (h : List.Forall₂ (fun p q => q.1 = p.1 ∧
      ∀ rest, Stops rest → item (q.2 ++ rest) = .ok (p.2, rest)) entries parts)
    (acc : List (String × α)) : Fills (addEntry item) acc parts (entries.reverse ++ acc) := by
  induction h generalizing acc with
  | nil => exact .nil acc
  | @cons p q entries parts hentry _ ih =>
    obtain ⟨key, text⟩ := q
    obtain ⟨rfl, hitem⟩ := hentry
    rw [List.reverse_cons, List.append_assoc]
    refine .cons ?_ (ih (p :: acc))
    intro rest hrest
    rw [addEntry, List.cons_append, bind_ok (colon_cons _), bind_ok (hitem rest hrest)]
    rfl

/-- **A mapping reads back** if its values do. -/
theorem ReadsBack.mapping {s : Shape} {m : Mapping s.Value} (hlimit : m.entries.length < limit)
    (hback : ∀ p ∈ m.entries, ReadsBack limit depth s p.2) :
    ReadsBack limit (depth + 1) (.mapping s) m := by
  intro b hb rest _
  obtain ⟨parts, hparts, hb⟩ := bind_eq_ok.mp hb
  obtain rfl : Json.objectText parts = b := Except.ok.inj hb
  have hentries : List.Forall₂ (fun p q => q.1 = p.1 ∧
      ∀ rest, Stops rest → read limit s depth (q.2 ++ rest) = .ok (p.2, rest))
      m.entries parts := by
    refine ((List.forall₂_and_left ..).mpr ⟨hback, forall₂_of_mapM hparts⟩).imp ?_
    rintro p q ⟨hback, hentry⟩
    obtain ⟨inner, hinner, hentry⟩ := bind_eq_ok.mp hentry
    obtain rfl : (p.1, inner) = q := Except.ok.inj hentry
    exact ⟨rfl, hback inner hinner⟩
  have hlength : parts.length < limit := (forall₂_of_mapM hparts).length_eq ▸ hlimit
  have hfold := (fills_addEntry hentries []).fold hlength rest
  rw [Json.objectText, List.cons_append, List.append_assoc]
  refine (bind_ok (firstByte_cons (by decide) _)).trans ?_
  rw [if_pos rfl, descend, bind_ok (skipByte_cons _ _)]
  refine upTo_ok (t := 0x7d :: rest) ?_ rfl
  rw [List.singleton_append, members_eq, bind_assoc, bind_ok hfold, pure_bind, List.append_nil,
    List.reverse_reverse, Mapping.ofList_entries]
  rfl

end JsonForm

end WireCall
