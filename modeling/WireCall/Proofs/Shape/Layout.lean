import WireCall.Proofs.Json.Skip
import WireCall.Proofs.Json.Spelling
import WireCall.Proofs.Shape.RoundTrip

/-!
# Records read from objects in any layout

A record is read from an object whose members come in any order, with blanks between their parts,
with names and texts escaped in any way, and with members among them that nobody asks for. What is
read depends on what the members say and on nothing else: a value is read just if the object
*carries* it (`JsonForm.decode_record_eq_ok_iff`), that is, if each name is a text, no field has
two members, and each field has one that denotes its value, unless it may be left out.

This holds for records of texts and natural numbers, whose values are read just as they are denoted
(`JsonForm.read_eq_ok_iff`).
-/

namespace WireCall

namespace JsonForm

open Json (Scan Stops Blanks IsValue Member)

variable {α β : Type}

/-! ## Scanners in a row -/

theorem scan_bind_eq_ok {x : Scan α} {f : α → Scan β} {s u : Bytes} {b : β} :
    (x >>= f) s = .ok (b, u) ↔ ∃ a t, x s = .ok (a, t) ∧ f a t = .ok (b, u) := by
  have h := bind_eq_ok (x := x s) (f := fun p => f p.1 p.2) (b := (b, u))
  rw [Prod.exists] at h
  exact h

/-- Whether a scanner fails whatever it is given. -/
def Fails (x : Scan α) : Prop := ∀ s y, x s ≠ .ok y

theorem Fails.behind {x : Scan α} {f : α → Scan β} (h : ∀ a, Fails (f a)) : Fails (x >>= f) := by
  rintro s ⟨b, u⟩ hread
  obtain ⟨a, t, -, hf⟩ := scan_bind_eq_ok.mp hread
  exact h a t _ hf

theorem fails_misfit (m : Json.Misfit) : Fails (Scan.misfit m : Scan α) := nofun

theorem fails_failNext (cause : Json.Cause) : Fails (Scan.failNext cause : Scan α) := nofun

theorem fails_unsettled (m : Json.Misfit) : Fails (Scan.unsettled m : Scan α) := nofun

/-- What is made of a result, if there is a way to fail. -/
def settled (fail : Json.Misfit → Scan α) (result : Except Json.Misfit α) : Scan α :=
  match result with
  | .ok a => pure a
  | .error m => fail m

theorem settled_eq_ok_iff {fail : Json.Misfit → Scan α} (hfail : ∀ m, Fails (fail m))
    {result : Except Json.Misfit α} {s r : Bytes} {a : α} :
    settled fail result s = .ok (a, r) ↔ result = .ok a ∧ r = s := by
  cases result with
  | error m =>
    constructor
    · intro h
      exact absurd h (hfail m s _)
    · rintro ⟨⟨⟩, -⟩
  | ok a' =>
    constructor
    · intro h
      obtain ⟨rfl, rfl⟩ := Prod.mk.inj (Except.ok.inj h)
      exact ⟨rfl, rfl⟩
    · rintro ⟨h, rfl⟩
      obtain rfl := Except.ok.inj h
      rfl

/-- A value of a kind that is not wanted is refused. -/
theorem fails_unexpected (wanted : String) : Fails (unexpected wanted : Scan α) := by
  refine .behind fun next => ?_
  cases next with
  | none => exact fails_failNext _
  | some c =>
    simp only
    split
    · exact .behind fun _ => .behind fun _ => fails_misfit _
    split
    · exact .behind fun _ => .behind fun _ => fails_misfit _
    split
    · exact .behind fun _ => .behind fun _ => fails_misfit _
    split
    · exact .behind fun _ => .behind fun _ => fails_misfit _
    split
    · exact .behind fun _ => fails_misfit _
    split
    · exact .behind fun _ => .behind fun _ => fails_misfit _
    split
    · exact fails_misfit _
    split
    · exact fails_misfit _
    · exact fails_failNext _

/-! ## Texts and natural numbers -/

variable {front v rest r : Bytes} {wanted : String}

/-- **A text is read** just if one is denoted. -/
theorem readText_eq_ok_iff (hv : IsValue v) (hfront : Blanks front) {t : String} :
    readText wanted (front ++ (v ++ rest)) = .ok (t, r) ↔
      (∃ w, Json.Spells w (Bytes.ofText t) ∧ v = Json.enclosed w) ∧ r = rest := by
  have hpass : readText wanted (front ++ (v ++ rest)) = readText wanted (v ++ rest) :=
    bind_front (firstByte_front hfront _) _
  rw [hpass]
  obtain ⟨w, hw, rfl⟩ | ⟨c, more, rfl, hblank, hquote⟩ := hv.text_or
  · have hread : readText wanted (Json.enclosed w ++ rest) = Scan.text (w ++ 0x22 :: rest) := by
      rw [Json.enclosed, List.cons_append, List.append_assoc, readText,
        bind_ok (firstByte_cons (by decide) _), if_pos rfl, bind_ok (skipByte_cons _ _)]
      rfl
    rw [hread, Scan.text_eq_ok_iff hw]
    refine and_congr_left fun _ => ⟨fun h => ⟨w, h, rfl⟩, ?_⟩
    rintro ⟨w', h, hsame⟩
    rw [List.append_cancel_right (List.cons.inj hsame).2]
    exact h
  · have hread : readText wanted (c :: more ++ rest) =
        (unexpected wanted : Scan String) (c :: more ++ rest) := by
      rw [List.cons_append, readText, bind_ok (firstByte_cons hblank _), if_neg hquote]
    rw [hread]
    refine ⟨fun h => absurd h (fails_unexpected wanted _ _), ?_⟩
    rintro ⟨⟨w, -, hsame⟩, -⟩
    exact absurd (List.cons.inj hsame).1 hquote

/-- A number is taken for a natural one just if it is written as one. -/
theorem toNatural_eq_ok_iff {w : Width} {m : Numeral} {n : BitVec w.bits} :
    toNatural w m = .ok n ↔ m = .natural n.toNat := by
  constructor
  · intro h
    unfold toNatural at h
    split at h
    · rename_i k
      split at h
      · rename_i hk
        obtain rfl := Except.ok.inj h
        exact congrArg Numeral.natural (Nat.mod_eq_of_lt hk).symm
      · cases h
    · cases h
    · cases h
  · rintro rfl
    have hn : n.toNat < Nat.pow 2 w.bits := n.isLt
    simp only [toNatural, if_pos hn, BitVec.ofNat_toNat, BitVec.setWidth_eq]

/-- What is read is taken from a number, which is read behind the sign if there is one. -/
theorem exists_numeral {take : Numeral → Except Json.Misfit α} {a : α} {c : UInt8} {more : Bytes}
    (hblank : Json.isBlank c = false) (hc : c = 0x2d ∨ Json.isDigit c = true)
    (hread : readNumber wanted take (c :: more) = .ok (a, r)) :
    ∃ m, take m = .ok a ∧
      (Scan.numeral false more = .ok (m, r) ∨ Scan.numeral true (c :: more) = .ok (m, r)) := by
  unfold readNumber at hread
  rw [bind_ok (firstByte_cons hblank _), if_pos hc] at hread
  by_cases hsign : c = 0x2d
  · rw [if_pos hsign, bind_ok (skipByte_cons _ _)] at hread
    obtain ⟨m, t, hnumeral, htake⟩ := scan_bind_eq_ok.mp hread
    obtain ⟨hm, rfl⟩ := (settled_eq_ok_iff fails_misfit).mp htake
    exact ⟨m, hm, .inl hnumeral⟩
  · rw [if_neg hsign] at hread
    obtain ⟨m, t, hnumeral, htake⟩ := scan_bind_eq_ok.mp hread
    obtain ⟨hm, rfl⟩ := (settled_eq_ok_iff fails_misfit).mp htake
    exact ⟨m, hm, .inr hnumeral⟩

/-- **A natural number is read** just if its digits are there. -/
theorem readNatural_eq_ok_iff (hv : IsValue v) (hfront : Blanks front) (hrest : Stops rest)
    {w : Width} {n : BitVec w.bits} :
    readNumber wanted (toNatural w) (front ++ (v ++ rest)) = .ok (n, r) ↔
      v = Numeral.text (.natural n.toNat) ∧ r = rest := by
  have hpass : readNumber wanted (toNatural w) (front ++ (v ++ rest)) =
      readNumber wanted (toNatural w) (v ++ rest) := bind_front (firstByte_front hfront _) _
  rw [hpass]
  constructor
  · intro hread
    obtain hnumber | ⟨c, more, rfl, hblank, hsign, hdigit⟩ := hv.number_or
    · obtain ⟨c, more, hcons, hc⟩ := hnumber.exists_cons
      have hblank : Json.isBlank c = false := by
        rcases hc with rfl | hdigit
        · rfl
        · exact Json.isBlank_of_isDigit hdigit
      rw [hcons, List.cons_append] at hread
      obtain ⟨m, hm, hnumeral⟩ := exists_numeral hblank hc hread
      obtain rfl := toNatural_eq_ok_iff.mp hm
      rcases hnumeral with hnumeral | hnumeral
      · cases (Scan.numeral_eq_natural hnumeral).1
      · obtain ⟨-, htext, hstops⟩ := Scan.numeral_eq_natural hnumeral
        rw [← List.cons_append, ← hcons] at htext
        obtain ⟨hvalue, rfl⟩ := hnumber.eq_natural hrest htext hstops
        exact ⟨hvalue, rfl⟩
    · unfold readNumber at hread
      rw [List.cons_append, bind_ok (firstByte_cons hblank _),
        if_neg (by simp [hsign, hdigit])] at hread
      exact absurd hread (fails_unexpected wanted _ _)
  · rintro ⟨rfl, rfl⟩
    have hn : n.toNat < 0x10000000000000000 :=
      Nat.lt_of_lt_of_le n.isLt (by cases w <;> decide)
    exact readNumber_natural hn (toNatural_eq_ok_iff.mpr rfl) hrest

/-- Whether values of a shape are texts or natural numbers. -/
def isPlain : Shape → Bool
  | .text | .natural _ => true
  | _ => false

/-- **What the text of a value denotes**, where this is a text or a natural number. -/
def Denotes : (s : Shape) → Bytes → s.Value → Prop
  | .text, v, (t : String) => ∃ w, Json.Spells w (Bytes.ofText t) ∧ v = Json.enclosed w
  | .natural _, v, (n : BitVec _) => v = Numeral.text (.natural n.toNat)
  | _, _, _ => False

/-- **A text or a natural number is read** just if it is denoted. -/
theorem read_eq_ok_iff {s : Shape} (hs : isPlain s = true) (hv : IsValue v) (hfront : Blanks front)
    (hrest : Stops rest) {limit depth : Nat} {a : s.Value} :
    read limit s depth (front ++ (v ++ rest)) = .ok (a, r) ↔ Denotes s v a ∧ r = rest := by
  cases s with
  | text => exact readText_eq_ok_iff hv hfront
  | natural w => exact readNatural_eq_ok_iff hv hfront hrest
  | _ => cases hs

/-! ## The member of a field -/

/-- Whether all fields hold texts or natural numbers. -/
def arePlain : Fields → Bool
  | .done => true
  | .field _ _ s more => isPlain s && arePlain more

/-- **What a member puts into the fields**: its value into that of its name, which has to be empty,
and nothing if there is no such field. -/
def Puts (key : String) (v : Bytes) : (fs : Fields) → Partial fs → Partial fs → Prop
  | .done, _, _ => True
  | .field name _ s more, (p : Option s.Value × Partial more),
      (q : Option s.Value × Partial more) =>
    if key = name then p.1 = none ∧ (∃ a, q.1 = some a ∧ Denotes s v a) ∧ q.2 = p.2
    else q.1 = p.1 ∧ Puts key v more p.2 q.2

theorem colon_front (hfront : Blanks front) (t : Bytes) :
    Scan.colon (front ++ t) = Scan.colon t := bind_front (peek_front hfront t) _

/-- **A member is read** just if it puts something into the fields. -/
theorem readField_eq_ok_iff {limit depth : Nat} (fs : Fields) (hfs : arePlain fs = true)
    {m : Member} (hm : IsValue m.value.value) (hrest : Stops rest) {key : String}
    {p q : Partial fs} :
    readField limit fs key p depth
        (m.between ++ 0x3a :: (m.value.front ++ (m.value.value ++ rest))) = .ok (q, r) ↔
      Puts key m.value.value fs p q ∧ r = rest := by
  have hcolon : Scan.colon (m.between ++ 0x3a :: (m.value.front ++ (m.value.value ++ rest))) =
      .ok ((), m.value.front ++ (m.value.value ++ rest)) :=
    (colon_front m.blanks_between _).trans (colon_cons _)
  match fs with
  | .done =>
    have hskip := Scan.skipValue_append m.value.blanks_front hm hrest
    rw [readField, bind_ok hcolon, bind_ok hskip]
    constructor
    · intro h
      obtain ⟨-, rfl⟩ := Prod.mk.inj (Except.ok.inj h)
      exact ⟨trivial, rfl⟩
    · rintro ⟨-, rfl⟩
      rfl
  | .field name presence s more =>
    obtain ⟨x, p⟩ := p
    obtain ⟨y, q⟩ := q
    rw [arePlain, Bool.and_eq_true] at hfs
    by_cases hkey : key = name
    · simp only [Puts, if_pos hkey]
      rw [readField, if_pos hkey]
      cases x with
      | some b =>
        constructor
        · rintro ⟨⟩
        · rintro ⟨⟨⟨⟩, -⟩, -⟩
      | none =>
        rw [Option.isSome_none, if_neg (by decide), bind_ok hcolon]
        refine scan_bind_eq_ok.trans ?_
        constructor
        · rintro ⟨a, t, hread, hdone⟩
          obtain ⟨ha, rfl⟩ := (read_eq_ok_iff hfs.1 hm m.value.blanks_front hrest).mp hread
          obtain ⟨hpartial, rfl⟩ := Prod.mk.inj (Except.ok.inj hdone)
          obtain ⟨rfl, rfl⟩ := Prod.mk.inj hpartial
          exact ⟨⟨rfl, ⟨a, rfl, ha⟩, rfl⟩, rfl⟩
        · rintro ⟨⟨-, ⟨a, rfl, ha⟩, rfl⟩, rfl⟩
          exact ⟨a, r, (read_eq_ok_iff hfs.1 hm m.value.blanks_front hrest).mpr ⟨ha, rfl⟩, rfl⟩
    · have ih : readField limit more key p depth
          (m.between ++ 0x3a :: (m.value.front ++ (m.value.value ++ rest))) = .ok (q, r) ↔
          Puts key m.value.value more p q ∧ r = rest := readField_eq_ok_iff more hfs.2 hm hrest
      simp only [Puts, if_neg hkey]
      rw [readField, if_neg hkey]
      refine scan_bind_eq_ok.trans ?_
      constructor
      · rintro ⟨a, t, hread, hdone⟩
        obtain ⟨hpartial, rfl⟩ := Prod.mk.inj (Except.ok.inj hdone)
        obtain ⟨rfl, rfl⟩ := Prod.mk.inj hpartial
        obtain ⟨hputs, hrest⟩ := ih.mp hread
        exact ⟨⟨rfl, hputs⟩, hrest⟩
      · rintro ⟨⟨rfl, hputs⟩, hrest⟩
        exact ⟨q, r, ih.mpr ⟨hputs, hrest⟩, rfl⟩

/-! ## All members -/

theorem nextMember_front (hfront : Blanks front) (first : Bool) (t : Bytes) :
    Scan.nextMember first (front ++ t) = Scan.nextMember first t :=
  bind_front (peek_front hfront t) _

theorem nextMember_quote (w t : Bytes) :
    Scan.nextMember true (Json.enclosed w ++ t) = .ok (true, Json.enclosed w ++ t) := by
  rw [Scan.nextMember, Json.enclosed, List.cons_append, bind_ok (peek_cons (by decide) _)]
  rfl

theorem nextMember_comma (hfront : Blanks front) (w t : Bytes) :
    Scan.nextMember false (0x2c :: (front ++ (Json.enclosed w ++ t))) =
      .ok (true, Json.enclosed w ++ t) := by
  have hpeek : Scan.peek (front ++ (Json.enclosed w ++ t)) = Scan.peek (Json.enclosed w ++ t) :=
    peek_front hfront _
  rw [Scan.nextMember, bind_ok (peek_cons (by decide) _)]
  refine (bind_ok (skipByte_cons 0x2c _)).trans ?_
  rw [Json.enclosed, List.cons_append] at hpeek ⊢
  rw [bind_ok (hpeek.trans (peek_cons (by decide) _))]
  rfl

/-- The text of a member with what follows it. -/
theorem text_append (m : Member) (t : Bytes) :
    m.text ++ t = m.before ++ (Json.enclosed m.name ++
      (m.between ++ 0x3a :: (m.value.front ++ (m.value.value ++ (m.value.back ++ t))))) := by
  simp [Member.text, Json.Padded.text]

/-- What stands behind the value of a member: its blanks, other members, and the end. -/
theorem stops_members {back blanks : Bytes} (hback : Blanks back) (hblanks : Blanks blanks)
    (members : List Member) (rest : Bytes) :
    Stops (back ++ (members.flatMap (fun m => 0x2c :: m.text) ++ (blanks ++ 0x7d :: rest))) :=
  .of_blanks hback
    (Json.Skip.stops_more (rfl : Json.Skip.Bracket.isClose .object 0x7d = true) hblanks rest)

/-- **What members make of what was there before**, if it is known what each of them does. -/
def Takes (puts : String → Bytes → β → β → Prop) : β → List Member → β → Prop
  | p, [], q => q = p
  | p, m :: more, q =>
    ∃ key mid, m.IsNamed key ∧ puts key m.value.value p mid ∧ Takes puts mid more q

section Fold

variable {member : String → β → Scan β} {puts : String → Bytes → β → β → Prop} {p q : β}
  {members : List Member} {k : Nat} {back blanks : Bytes}

/-- The end of the object ends its members. -/
theorem foldMembers_end_iff (hfront : Blanks front) (first : Bool) (hk : 0 < k) :
    foldMembers member k first p (front ++ 0x7d :: rest) = .ok (q, r) ↔
      Takes puts p [] q ∧ r = 0x7d :: rest := by
  obtain ⟨k, rfl⟩ := Nat.exists_eq_succ_of_ne_zero (Nat.ne_of_gt hk)
  have hend : foldMembers member (k + 1) first p (front ++ 0x7d :: rest) = .ok (p, 0x7d :: rest) :=
    (bind_front (nextMember_front hfront first _) _).trans (foldMembers_end k first p rest)
  rw [hend]
  constructor
  · intro h
    obtain ⟨rfl, rfl⟩ := Prod.mk.inj (Except.ok.inj h)
    exact ⟨rfl, rfl⟩
  · rintro ⟨rfl, rfl⟩
    rfl

variable (hmember : ∀ {m : Member}, IsValue m.value.value → ∀ {key p q rest r}, Stops rest →
  (member key p (m.between ++ 0x3a :: (m.value.front ++ (m.value.value ++ rest))) = .ok (q, r) ↔
    puts key m.value.value p q ∧ r = rest))
include hmember

/-- A member is read with its name, and then the others. -/
theorem foldMembers_member {m : Member} (hm : IsValue m.value.value) (hrest : Stops rest) :
    (do
      Scan.skipByte
      let name ← Scan.text
      let acc ← member name p
      foldMembers member k false acc : Scan β)
      (Json.enclosed m.name ++
        (m.between ++ 0x3a :: (m.value.front ++ (m.value.value ++ rest)))) = .ok (q, r) ↔
      ∃ key mid, m.IsNamed key ∧ puts key m.value.value p mid ∧
        foldMembers member k false mid rest = .ok (q, r) := by
  rw [Json.enclosed, List.cons_append, List.append_assoc, List.singleton_append,
    bind_ok (skipByte_cons _ _)]
  constructor
  · intro h
    obtain ⟨key, t, hname, h⟩ := scan_bind_eq_ok.mp h
    obtain ⟨hnamed, rfl⟩ := (Scan.text_eq_ok_iff m.inside).mp hname
    obtain ⟨mid, t, hfield, hmore⟩ := scan_bind_eq_ok.mp h
    obtain ⟨hputs, rfl⟩ := (hmember hm hrest).mp hfield
    exact ⟨key, mid, hnamed, hputs, hmore⟩
  · rintro ⟨key, mid, hnamed, hputs, hmore⟩
    rw [bind_ok ((Scan.text_eq_ok_iff m.inside).mpr ⟨hnamed, rfl⟩),
      bind_ok ((hmember hm hrest).mpr ⟨hputs, rfl⟩)]
    exact hmore

/-- **The members behind the first one are read** just if they are taken. -/
theorem foldMembers_more_iff (hmembers : ∀ m ∈ members, IsValue m.value.value)
    (hk : members.length < k) (hback : Blanks back) (hblanks : Blanks blanks) :
    foldMembers member k false p
        (back ++ (members.flatMap (fun m => 0x2c :: m.text) ++ (blanks ++ 0x7d :: rest))) =
      .ok (q, r) ↔ Takes puts p members q ∧ r = 0x7d :: rest := by
  induction members generalizing k p back with
  | nil =>
    have hboth : Blanks (back ++ blanks) := fun c hc =>
      (List.mem_append.mp hc).elim (hback c) (hblanks c)
    rw [List.flatMap_nil, List.nil_append, ← List.append_assoc]
    exact foldMembers_end_iff hboth false hk
  | cons m members ih =>
    obtain ⟨k, rfl⟩ := Nat.exists_eq_succ_of_ne_zero (Nat.ne_of_gt (Nat.zero_lt_of_lt hk))
    have hm := hmembers m List.mem_cons_self
    have hstops := stops_members m.value.blanks_back hblanks members rest
    have hmore : ∀ mid, _ := fun mid =>
      ih (p := mid) (fun m' hm' => hmembers m' (List.mem_cons_of_mem m hm'))
        (Nat.lt_of_succ_lt_succ hk) m.value.blanks_back
    rw [List.flatMap_cons, List.cons_append, List.cons_append, List.append_assoc, text_append,
      foldMembers,
      bind_ok ((nextMember_front hback false _).trans (nextMember_comma m.blanks_before _ _)),
      if_pos rfl]
    refine (foldMembers_member hmember hm hstops).trans ?_
    simp only [hmore, Takes, ← and_assoc, exists_and_right]

/-- **The members of an object are read** just if they are taken. -/
theorem foldMembers_iff (hmembers : ∀ m ∈ members, IsValue m.value.value)
    (hk : members.length < k) (hblanks : Blanks blanks) :
    foldMembers member k true p
        (Json.joinComma (members.map Member.text) ++ (blanks ++ 0x7d :: rest)) = .ok (q, r) ↔
      Takes puts p members q ∧ r = 0x7d :: rest := by
  cases members with
  | nil => exact foldMembers_end_iff hblanks true hk
  | cons m members =>
    obtain ⟨k, rfl⟩ := Nat.exists_eq_succ_of_ne_zero (Nat.ne_of_gt (Nat.zero_lt_of_lt hk))
    have hm := hmembers m List.mem_cons_self
    have hstops := stops_members m.value.blanks_back hblanks members rest
    have hmore : ∀ mid, foldMembers member k false mid (m.value.back ++
          (members.flatMap (fun m => 0x2c :: m.text) ++ (blanks ++ 0x7d :: rest))) = .ok (q, r) ↔
        Takes puts mid members q ∧ r = 0x7d :: rest := fun mid =>
      foldMembers_more_iff hmember (fun m' hm' => hmembers m' (List.mem_cons_of_mem m hm'))
        (Nat.lt_of_succ_lt_succ hk) m.value.blanks_back hblanks
    rw [Json.joinComma_cons, List.append_assoc, text_append, foldMembers,
      bind_ok ((nextMember_front m.blanks_before true _).trans (nextMember_quote _ _)), if_pos rfl]
    refine (foldMembers_member hmember hm hstops).trans ?_
    simp only [hmore, Takes, ← and_assoc, exists_and_right]

end Fold

/-! ## What an object carries -/

/-- The last one of some members. -/
theorem takes_concat {puts : String → Bytes → β → β → Prop} {p q : β} {members : List Member}
    {m : Member} : Takes puts p (members ++ [m]) q ↔
      ∃ mid, Takes puts p members mid ∧ ∃ key, m.IsNamed key ∧ puts key m.value.value mid q := by
  induction members generalizing p with
  | nil => simp [Takes]
  | cons m' members ih =>
    simp only [List.cons_append, Takes, ih]
    constructor
    · rintro ⟨key, p', hnamed, hputs, mid, hmore, hlast⟩
      exact ⟨mid, ⟨key, p', hnamed, hputs, hmore⟩, hlast⟩
    · rintro ⟨mid, ⟨key, p', hnamed, hputs, hmore⟩, hlast⟩
      exact ⟨key, p', hnamed, hputs, mid, hmore, hlast⟩

/-- The members with a name. -/
def named (name : String) (members : List Member) : List Member :=
  members.filter fun m => m.key? = some name

theorem named_append (name : String) (members more : List Member) :
    named name (members ++ more) = named name members ++ named name more :=
  List.filter_append members more

theorem named_cons {m : Member} {key : String} (hkey : m.IsNamed key) (name : String)
    (members : List Member) :
    named name (m :: members) =
      if key = name then m :: named name members else named name members := by
  have hm := Member.key?_eq_some_iff.mpr hkey
  by_cases h : key = name <;> simp [named, h, hm]

theorem named_concat {m : Member} {key : String} (hkey : m.IsNamed key) (name : String)
    (members : List Member) :
    named name (members ++ [m]) = named name members ++ if key = name then [m] else [] := by
  rw [named_append, named_cons hkey]
  rfl

theorem named_eq_nil_iff {name : String} {members : List Member} :
    named name members = [] ↔ ∀ m ∈ members, ¬ m.IsNamed name := by
  simp [named, Member.key?_eq_some_iff]

/-- Two members with one name are found under it. -/
theorem two_le_length_named {m m' : Member} {name : String} {members : List Member}
    (h : [m, m'].Sublist members) (hm : m.IsNamed name) (hm' : m'.IsNamed name) :
    2 ≤ (named name members).length := by
  have hnamed : named name [m, m'] = [m, m'] := by
    rw [named_cons hm, if_pos rfl, named_cons hm', if_pos rfl]
    rfl
  have hsub : (named name [m, m']).Sublist (named name members) := h.filter _
  calc 2 = (named name [m, m']).length := (congrArg List.length hnamed).symm
    _ ≤ (named name members).length := hsub.length_le

/-- What the members with the name of a field give it. -/
def Gives (s : Shape) : List Member → Option s.Value → Prop
  | [], o => o = none
  | [m], o => ∃ a, o = some a ∧ Denotes s m.value.value a
  | _ :: _ :: _, _ => False

/-- Whether the fields hold what the members give them. -/
def Gathered : (fs : Fields) → List Member → Partial fs → Prop
  | .done, _, _ => True
  | .field name _ s more, members, (p : Option s.Value × Partial more) =>
    Gives s (named name members) p.1 ∧ Gathered more members p.2

theorem gives_none_iff {s : Shape} {members : List Member} :
    Gives s members none ↔ members = [] := by
  match members with
  | [] => simp [Gives]
  | [m] => simp [Gives]
  | _ :: _ :: _ => simp [Gives]

theorem gives_concat_iff {s : Shape} {members : List Member} {m : Member} {o : Option s.Value} :
    Gives s (members ++ [m]) o ↔ members = [] ∧ ∃ a, o = some a ∧ Denotes s m.value.value a := by
  match members with
  | [] => simp [Gives]
  | [m'] => simp [Gives]
  | _ :: _ :: _ => simp [Gives]

/-- A member of another name gives the fields nothing. -/
theorem gathered_concat_of_notMem {m : Member} {key : String} (hkey : m.IsNamed key) (fs : Fields)
    (hnames : key ∉ names fs) {members : List Member} {p : Partial fs} :
    Gathered fs (members ++ [m]) p ↔ Gathered fs members p := by
  match fs with
  | .done => exact Iff.rfl
  | .field name presence s more =>
    rw [names, List.mem_cons, not_or] at hnames
    simp only [Gathered, named_concat hkey, if_neg hnames.1, List.append_nil,
      gathered_concat_of_notMem hkey more hnames.2]

/-- **What the fields hold** after one more member. -/
theorem gathered_concat_iff {m : Member} {key : String} (hkey : m.IsNamed key) (fs : Fields)
    (hnames : (names fs).Nodup) {members : List Member} {q : Partial fs} :
    Gathered fs (members ++ [m]) q ↔
      ∃ mid, Gathered fs members mid ∧ Puts key m.value.value fs mid q := by
  match fs with
  | .done => exact ⟨fun _ => ⟨q, trivial, trivial⟩, fun _ => trivial⟩
  | .field name presence s more =>
    obtain ⟨y, q⟩ := q
    obtain ⟨hname, hnames⟩ := List.nodup_cons.mp hnames
    by_cases h : key = name
    · have hmore : key ∉ names more := h ▸ hname
      simp only [Gathered, named_concat hkey, if_pos h, gives_concat_iff, Puts,
        gathered_concat_of_notMem hkey more hmore]
      constructor
      · rintro ⟨⟨hnone, ha⟩, hmore⟩
        exact ⟨((none, q) : Option s.Value × Partial more), ⟨gives_none_iff.mpr hnone, hmore⟩,
          rfl, ha, rfl⟩
      · rintro ⟨⟨x, mid⟩, ⟨hgives, hmore⟩, hx, ha, hq⟩
        obtain rfl : x = none := hx
        obtain rfl : q = mid := hq
        exact ⟨⟨gives_none_iff.mp hgives, ha⟩, hmore⟩
    · simp only [Gathered, named_concat hkey, if_neg h, List.append_nil, Puts,
        gathered_concat_iff hkey more hnames]
      constructor
      · rintro ⟨hgives, mid, hmore, hputs⟩
        exact ⟨((y, mid) : Option s.Value × Partial more), ⟨hgives, hmore⟩, rfl, hputs⟩
      · rintro ⟨⟨x, mid⟩, ⟨hgives, hmore⟩, hy, hputs⟩
        obtain rfl : y = x := hy
        exact ⟨hgives, mid, hmore, hputs⟩

/-- Without any members all fields stay empty. -/
theorem gathered_nil_iff (fs : Fields) {q : Partial fs} :
    Gathered fs [] q ↔ q = Partial.none fs := by
  match fs with
  | .done => exact ⟨fun _ => rfl, fun _ => trivial⟩
  | .field name presence s more =>
    obtain ⟨y, q⟩ := q
    simp only [Gathered, gathered_nil_iff more, Partial.none]
    constructor
    · rintro ⟨hy, hq⟩
      exact Prod.ext hy hq
    · intro h
      exact Prod.mk.inj h

/-- **What members put into empty fields** is what they give them. -/
theorem takes_iff {fs : Fields} (hnames : (names fs).Nodup) {members : List Member}
    {q : Partial fs} : Takes (fun key v => Puts key v fs) (Partial.none fs) members q ↔
      (∀ m ∈ members, ∃ key, m.IsNamed key) ∧ Gathered fs members q := by
  induction members using List.reverseRecOn generalizing q with
  | nil =>
    rw [Takes, gathered_nil_iff]
    exact (and_iff_right nofun).symm
  | append_singleton members m ih =>
    rw [takes_concat]
    constructor
    · rintro ⟨mid, htakes, key, hkey, hputs⟩
      obtain ⟨hnamed, hgathered⟩ := ih.mp htakes
      refine ⟨?_, (gathered_concat_iff hkey fs hnames).mpr ⟨mid, hgathered, hputs⟩⟩
      intro m' hm'
      rcases List.mem_append.mp hm' with hm' | hm'
      · exact hnamed m' hm'
      · obtain rfl := List.mem_singleton.mp hm'
        exact ⟨key, hkey⟩
    · rintro ⟨hnamed, hgathered⟩
      obtain ⟨key, hkey⟩ := hnamed m (by simp)
      obtain ⟨mid, hmid, hputs⟩ := (gathered_concat_iff hkey fs hnames).mp hgathered
      exact ⟨mid, ih.mpr ⟨fun m' hm' => hnamed m' (List.mem_append_left _ hm'), hmid⟩,
        key, hkey, hputs⟩

/-- **Whether an object carries the values of all fields**: the only member with the name of a field
denotes its value, or there is none and the field may be left out. -/
def Carries : (fs : Fields) → List Member → fs.Value → Prop
  | .done, _, _ => True
  | .field name presence s more, members, (v : s.Value × more.Value) =>
    (match named name members with
      | [] => missing? presence s = some v.1
      | [m] => Denotes s m.value.value v.1
      | _ :: _ :: _ => False) ∧ Carries more members v.2

/-- The names of the fields that may not be left out. -/
def needed : Fields → List String
  | .done => []
  | .field name presence s more =>
    if (missing? presence s).isSome then needed more else name :: needed more

/-- No field has two members. -/
theorem Carries.length_named_le {name : String} {members : List Member} (fs : Fields)
    (hname : name ∈ names fs) {v : fs.Value} (h : Carries fs members v) :
    (named name members).length ≤ 1 := by
  match fs with
  | .done => cases hname
  | .field first presence s more =>
    obtain ⟨a, v⟩ := v
    obtain ⟨hfirst, hmore⟩ := h
    rw [names, List.mem_cons] at hname
    rcases hname with rfl | hname
    · split at hfirst
      · rename_i hnone
        exact hnone ▸ Nat.zero_le 1
      · rename_i hone
        exact hone ▸ Nat.le_refl 1
      · cases hfirst
    · exact Carries.length_named_le more hname hmore

/-- A field that may not be left out has a member. -/
theorem Carries.named_ne_nil {name : String} {members : List Member} (fs : Fields)
    (hname : name ∈ needed fs) {v : fs.Value} (h : Carries fs members v) :
    named name members ≠ [] := by
  match fs with
  | .done => cases hname
  | .field first presence s more =>
    obtain ⟨a, v⟩ := v
    obtain ⟨hfirst, hmore⟩ := h
    rw [needed] at hname
    split at hname
    · exact Carries.named_ne_nil more hname hmore
    · rename_i hneeded
      rcases List.mem_cons.mp hname with rfl | hname
      · intro hnone
        rw [hnone] at hfirst
        exact hneeded (by rw [hfirst]; rfl)
      · exact Carries.named_ne_nil more hname hmore

/-- The fields are complete if each of them holds a value or may be left out. -/
theorem complete_field_iff {name : String} {presence : Presence} {s : Shape} {more : Fields}
    {x : Option s.Value} {p : Partial more} {a : s.Value} {v : more.Value} :
    Partial.complete (.field name presence s more) ((x, p) : Option s.Value × Partial more) =
        .ok ((a, v) : s.Value × more.Value) ↔
      (x = some a ∨ x = none ∧ missing? presence s = some a) ∧ Partial.complete more p = .ok v := by
  have hdone : ∀ b : s.Value, (Partial.complete more p >>= fun rest =>
      (pure ((b, rest) : s.Value × more.Value) : Except Json.Misfit _)) =
        .ok ((a, v) : s.Value × more.Value) ↔ b = a ∧ Partial.complete more p = .ok v := by
    intro b
    rw [bind_eq_ok]
    constructor
    · rintro ⟨rest, hrest, h⟩
      obtain ⟨rfl, rfl⟩ := Prod.mk.inj (Except.ok.inj h)
      exact ⟨rfl, hrest⟩
    · rintro ⟨rfl, hrest⟩
      exact ⟨v, hrest, rfl⟩
  rw [Partial.complete]
  cases x with
  | some b => exact (hdone b).trans (by simp)
  | none =>
    simp only
    cases hmissing : missing? presence s with
    | some b => exact (hdone b).trans (by simp)
    | none =>
      constructor
      · rintro ⟨⟩
      · rintro ⟨h | ⟨-, h⟩, -⟩ <;> cases h

/-- Fields that hold what the members give them are complete just if the members carry values. -/
theorem carries_iff (fs : Fields) {members : List Member} {v : fs.Value} :
    Carries fs members v ↔ ∃ p, Gathered fs members p ∧ Partial.complete fs p = .ok v := by
  match fs with
  | .done => exact ⟨fun _ => ⟨(), trivial, rfl⟩, fun _ => trivial⟩
  | .field name presence s more =>
    obtain ⟨a, v⟩ := v
    -- the value of the first field, in any way that it is given
    have hfirst : (match named name members with
        | [] => missing? presence s = some a
        | [m] => Denotes s m.value.value a
        | _ :: _ :: _ => False) ↔ ∃ x, Gives s (named name members) x ∧
          (x = some a ∨ x = none ∧ missing? presence s = some a) := by
      match named name members with
      | [] => simp [Gives]
      | [m] => simp [Gives]
      | _ :: _ :: _ => simp [Gives]
    simp only [Carries, carries_iff more, hfirst]
    constructor
    · rintro ⟨⟨x, hgives, hx⟩, p, hgathered, hcomplete⟩
      exact ⟨((x, p) : Option s.Value × Partial more), ⟨hgives, hgathered⟩,
        complete_field_iff.mpr ⟨hx, hcomplete⟩⟩
    · rintro ⟨⟨x, p⟩, ⟨hgives, hgathered⟩, hcomplete⟩
      obtain ⟨hx, hcomplete⟩ := complete_field_iff.mp hcomplete
      exact ⟨⟨x, hgives, hx⟩, p, hgathered, hcomplete⟩

/-! ## Records -/

theorem upTo_eq_ok_iff {close : Scan.Close} {inside : Scan α} {s u : Bytes} {a : α} :
    Scan.upTo close inside s = .ok (a, u) ↔
      ∃ t, inside s = .ok (a, t) ∧ close t = (u, none) := by
  constructor
  · intro h
    unfold Scan.upTo at h
    split at h
    · rename_i a' t hinside
      split at h
      · rename_i u' hclose
        obtain ⟨rfl, rfl⟩ := Prod.mk.inj (Except.ok.inj h)
        exact ⟨t, hinside, hclose⟩
      · cases h
    · cases h
  · rintro ⟨t, hinside, hclose⟩
    exact upTo_ok hinside hclose

theorem whole_eq_ok_iff {scan : Scan α} {text : Bytes} {a : α} :
    Scan.whole scan text = .ok a ↔ ∃ t, scan text = .ok (a, t) ∧ Json.dropBlanks t = [] := by
  constructor
  · intro h
    unfold Scan.whole at h
    split at h
    · cases h
    · rename_i a' t hscan
      split at h
      · rename_i hnothing
        obtain rfl := Except.ok.inj h
        exact ⟨t, hscan, hnothing⟩
      · cases h
  · rintro ⟨t, hscan, hnothing⟩
    simp only [Scan.whole, hscan, hnothing]

/-- There are fewer members than bytes. -/
theorem length_members_lt (members : List Member) (blanks : Bytes) :
    members.length < (Json.memberText members blanks).length := by
  have hle := (length_joinComma (members.map Member.text)).2
  rw [List.length_map] at hle
  simp only [Json.memberText, List.length_cons, List.length_append]
  omega

/-- A record is read from an object by its members. -/
theorem read_brace (limit depth : Nat) (name : String) (fs : Fields) (t : Bytes) :
    read limit (.record name fs) (depth + 1) (0x7b :: t) =
      Scan.upTo Scan.closeObject
        (foldMembers (fun key acc => readField limit fs key acc depth) limit true (Partial.none fs)
          >>= fun p => settled Scan.unsettled (Partial.complete fs p)) t := by
  refine (bind_ok (firstByte_cons (by decide) _)).trans ?_
  rw [if_neg (by decide), if_pos rfl, descend, bind_ok (skipByte_cons _ _)]
  refine congrArg (fun finish => Scan.upTo Scan.closeObject (_ >>= finish) t) (funext fun p => ?_)
  cases Partial.complete fs p <;> rfl

/-- **An object is read** just if it carries values for all fields. -/
theorem read_object_iff {limit depth : Nat} {name : String} {fs : Fields}
    (hfs : arePlain fs = true) (hnames : (names fs).Nodup) (o : Json.Object)
    (hlimit : o.members.length < limit) {v : fs.Value} :
    read limit (.record name fs) (depth + 1) (o.text ++ rest) = .ok (v, r) ↔
      ((∀ m ∈ o.members, ∃ key, m.IsNamed key) ∧ Carries fs o.members v) ∧ r = rest := by
  have hfold : ∀ p t, foldMembers (fun key acc => readField limit fs key acc depth) limit true
      (Partial.none fs) (Json.joinComma (o.members.map Member.text) ++ (o.blanks ++ 0x7d :: rest)) =
        .ok (p, t) ↔ ((∀ m ∈ o.members, ∃ key, m.IsNamed key) ∧ Gathered fs o.members p) ∧
          t = 0x7d :: rest := fun p t => by
    rw [← takes_iff hnames]
    exact foldMembers_iff (fun hm _ _ _ _ _ hrest => readField_eq_ok_iff fs hfs hm hrest) o.valid
      hlimit o.isBlanks
  rw [Json.Object.text, Json.memberText, List.cons_append, List.append_assoc, List.append_assoc,
    List.singleton_append, read_brace]
  refine upTo_eq_ok_iff.trans ?_
  rw [carries_iff fs]
  constructor
  · rintro ⟨t, hinside, hclose⟩
    obtain ⟨p, u, hmembers, hvalue⟩ := scan_bind_eq_ok.mp hinside
    obtain ⟨⟨hnamed, hgathered⟩, rfl⟩ := (hfold p u).mp hmembers
    obtain ⟨hcomplete, rfl⟩ := (settled_eq_ok_iff fails_unsettled).mp hvalue
    exact ⟨⟨hnamed, p, hgathered, hcomplete⟩, (Prod.mk.inj hclose).1.symm⟩
  · rintro ⟨⟨hnamed, p, hgathered, hcomplete⟩, rfl⟩
    exact ⟨_, scan_bind_eq_ok.mpr ⟨p, _, (hfold p _).mpr ⟨⟨hnamed, hgathered⟩, rfl⟩,
      (settled_eq_ok_iff fails_unsettled).mpr ⟨hcomplete, rfl⟩⟩, rfl⟩

/-- **What is read of an object** is what it carries, in any layout. -/
theorem decode_record_eq_ok_iff {name : String} {fs : Fields} (hfs : arePlain fs = true)
    (hnames : (names fs).Nodup) (o : Json.Object) {front back : Bytes} (hfront : Blanks front)
    (hback : Blanks back) {v : fs.Value} :
    decode (.record name fs) (front ++ (o.text ++ back)) = .ok v ↔
      (∀ m ∈ o.members, ∃ key, m.IsNamed key) ∧ Carries fs o.members v := by
  have hlimit : o.members.length < (front ++ (o.text ++ back)).length + 1 := by
    have hlt := length_members_lt o.members o.blanks
    simp only [Json.Object.text, List.length_append] at *
    omega
  have hnothing : Json.dropBlanks back = [] := by
    simpa [Json.dropBlanks] using dropBlanks_append hback []
  have hpass : read ((front ++ (o.text ++ back)).length + 1) (.record name fs) Json.maxDepth
      (front ++ (o.text ++ back)) =
        read ((front ++ (o.text ++ back)).length + 1) (.record name fs) Json.maxDepth
          (o.text ++ back) := bind_front (firstByte_front hfront _) _
  refine whole_eq_ok_iff.trans ?_
  rw [hpass]
  constructor
  · rintro ⟨t, hread, -⟩
    exact ((read_object_iff hfs hnames o hlimit).mp hread).1
  · intro h
    exact ⟨back, (read_object_iff hfs hnames o hlimit).mpr ⟨h, rfl⟩, hnothing⟩

end JsonForm

end WireCall
