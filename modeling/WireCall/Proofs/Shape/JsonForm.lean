import Mathlib.Data.List.Nodup
import WireCall.Proofs.Json.Scan
import WireCall.Proofs.Results
import WireCall.Shape.JsonForm

/-!
# Values read back from their JSON text

A value *reads back* (`JsonForm.ReadsBack`) if the reader of its shape takes it from the front of a
text that starts with what was written, and leaves what follows. Texts and natural numbers do so,
and a record does if its fields do and have different names (`JsonForm.ReadsBack.record`): the
members of its object fill one field after another.
-/

namespace WireCall

namespace JsonForm

open Json (Scan Stops)

/-! ## Scanners in a row -/

variable {α β : Type}

theorem bind_ok {x : Scan α} {f : α → Scan β} {s t : Bytes} {a : α} (h : x s = .ok (a, t)) :
    (x >>= f) s = f a t := by
  simp only [bind, StateT.bind, h, Except.bind]

theorem skipByte_cons (c : UInt8) (s : Bytes) : Scan.skipByte (c :: s) = .ok ((), s) := rfl

/-- A byte that is no blank is next. -/
theorem peek_cons {c : UInt8} (hc : Json.isBlank c = false) (s : Bytes) :
    Scan.peek (c :: s) = .ok (some c, c :: s) := by
  simp [Scan.peek, Json.dropBlanks, hc]

theorem firstByte_cons {c : UInt8} (hc : Json.isBlank c = false) (s : Bytes) :
    firstByte (c :: s) = .ok (c, c :: s) := by
  rw [firstByte, bind_ok (peek_cons hc s)]
  rfl

theorem colon_cons (s : Bytes) : Scan.colon (0x3a :: s) = .ok ((), s) := by
  rw [Scan.colon, bind_ok (peek_cons (by decide) s)]
  rfl

theorem upTo_ok {close : Scan.Close} {inside : Scan α} {s t u : Bytes} {a : α}
    (hinside : inside s = .ok (a, t)) (hclose : close t = (u, none)) :
    Scan.upTo close inside s = .ok (a, u) := by
  simp only [Scan.upTo, hinside, hclose]

/-! ## Single values -/

/-- **A value reads back** from its text where nothing follows that it could be mixed up with. -/
def ReadsBack (limit depth : Nat) (s : Shape) (v : s.Value) : Prop :=
  ∀ b, write s v = .ok b → ∀ rest, Stops rest → read limit s depth (b ++ rest) = .ok (v, rest)

theorem readText_quote (wanted : String) (t : String) (rest : Bytes) :
    readText wanted (Json.quote t ++ rest) = .ok (t, rest) := by
  rw [Json.quote, List.cons_append, List.append_assoc, readText,
    bind_ok (firstByte_cons (by decide) _), if_pos rfl, bind_ok (skipByte_cons _ _)]
  exact Scan.text_quoted t rest

/-- A digit is neither a blank nor a sign. -/
theorem blank_of_digit {c : UInt8} (hdigit : Json.isDigit c = true) :
    Json.isBlank c = false ∧ c ≠ 0x2d := by
  refine ⟨?_, ?_⟩
  · simp only [Json.isDigit, Bool.and_eq_true, decide_eq_true_eq] at hdigit
    simp only [Json.isBlank, Bool.or_eq_false_iff, decide_eq_false_iff_not]
    refine ⟨⟨⟨?_, ?_⟩, ?_⟩, ?_⟩ <;> rintro rfl <;> exact absurd hdigit.1 (by decide)
  · rintro rfl
    exact absurd hdigit (by decide)

variable {wanted : String} {take : Numeral → Except Json.Misfit α} {a : α} {rest : Bytes}

theorem readNumber_natural {n : Nat} (hn : n < 0x10000000000000000)
    (htake : take (.natural n) = .ok a) (hrest : Stops rest) :
    readNumber wanted take (Numeral.text (.natural n) ++ rest) = .ok (a, rest) := by
  obtain ⟨hall, -, c, more, hcons, -⟩ := Json.text_natural n
  have hdigit : Json.isDigit c = true := hall c (by rw [hcons]; exact List.mem_cons_self)
  obtain ⟨hblank, hsign⟩ := blank_of_digit hdigit
  have hnumeral := Scan.numeral_digits hn true hrest
  rw [hcons, List.cons_append] at hnumeral ⊢
  unfold readNumber
  rw [bind_ok (firstByte_cons hblank _), if_pos (.inr hdigit), if_neg hsign]
  refine (bind_ok hnumeral).trans ?_
  simp only [Scan.integerOf, if_true, htake]
  rfl

theorem readNumber_negative {i : Int} (hneg : i < 0) (hlow : -0x8000000000000000 ≤ i)
    (htake : take (.negative i) = .ok a) (hrest : Stops rest) :
    readNumber wanted take (Numeral.text (.negative i) ++ rest) = .ok (a, rest) := by
  have hnumeral := Scan.numeral_digits (n := i.natAbs) (by omega) false hrest
  rw [Scan.integerOf_natAbs hneg hlow] at hnumeral
  rw [Json.text_negative, List.cons_append]
  unfold readNumber
  rw [bind_ok (firstByte_cons (by decide) _), if_pos (.inl rfl), if_pos rfl]
  refine (bind_ok (skipByte_cons _ _)).trans ((bind_ok hnumeral).trans ?_)
  simp only [htake]
  rfl

/-- What an integer of a width may be. -/
theorem toInt_bounds {w : Width} (x : BitVec w.bits) :
    -(Nat.pow 2 (w.bits - 1) : Int) ≤ x.toInt ∧ x.toInt < (Nat.pow 2 (w.bits - 1) : Int) ∧
      Nat.pow 2 (w.bits - 1) ≤ 0x8000000000000000 := by
  have hpow : ((Nat.pow 2 (w.bits - 1) : Nat) : Int) = 2 ^ (w.bits - 1) := Int.natCast_pow 2 _
  rw [hpow]
  exact ⟨BitVec.le_toInt x, BitVec.toInt_lt, by cases w <;> decide⟩

/-- What is left when the opening letter of a literal has been taken. -/
theorem letters_append (b rest : Bytes) : Scan.letters b (b ++ rest) = .ok ((), rest) := by
  induction b with
  | nil => rfl
  | cons c b ih =>
    rw [List.cons_append, Scan.letters]
    exact (if_pos rfl).trans ih

namespace ReadsBack

variable {limit depth : Nat}

theorem unit : ReadsBack limit depth .unit () := by
  intro b hb rest _
  obtain rfl : Json.nullText = b := Except.ok.inj hb
  rw [Json.nullText, List.cons_append]
  refine (bind_ok (firstByte_cons (by decide) _)).trans ?_
  rw [if_pos rfl, bind_ok (skipByte_cons _ _)]
  exact letters_append _ rest

theorem bool (x : Bool) : ReadsBack limit depth .bool x := by
  intro b hb rest _
  obtain rfl : Json.boolText x = b := Except.ok.inj hb
  cases x with
  | true =>
    rw [Json.boolText, if_pos rfl, List.cons_append]
    refine (bind_ok (firstByte_cons (by decide) _)).trans ?_
    rw [if_pos rfl, bind_ok (skipByte_cons _ _), bind_ok (letters_append _ _)]
    rfl
  | false =>
    rw [Json.boolText, if_neg (by decide), List.cons_append]
    refine (bind_ok (firstByte_cons (by decide) _)).trans ?_
    rw [if_neg (by decide), if_pos rfl, bind_ok (skipByte_cons _ _), bind_ok (letters_append _ _)]
    rfl

theorem text (t : String) : ReadsBack limit depth .text t := by
  intro b hb rest _
  obtain rfl : Json.quote t = b := Except.ok.inj hb
  exact readText_quote "a string" t rest

theorem natural {w : Width} (x : BitVec w.bits) : ReadsBack limit depth (.natural w) x := by
  intro b hb rest hrest
  obtain rfl : Numeral.text (.natural x.toNat) = b := Except.ok.inj hb
  have hlt : x.toNat < Nat.pow 2 w.bits := x.isLt
  have hle : Nat.pow 2 w.bits ≤ 0x10000000000000000 := by cases w <;> decide
  have htake : toNatural w (.natural x.toNat) = .ok x := by
    simp only [toNatural, if_pos hlt, BitVec.ofNat_toNat, BitVec.setWidth_eq]
  exact readNumber_natural (Nat.lt_of_lt_of_le hlt hle) htake hrest

theorem integer {w : Width} (x : BitVec w.bits) : ReadsBack limit depth (.integer w) x := by
  intro b hb rest hrest
  obtain ⟨hlow, hhigh, hpow⟩ := toInt_bounds x
  have hback := BitVec.ofInt_toInt (x := x)
  by_cases hneg : x.toInt < 0
  · obtain rfl : Numeral.text (.negative x.toInt) = b := by simpa [write, hneg] using hb
    have htake : toInteger w (.negative x.toInt) = .ok x := by
      simp only [toInteger, if_pos hlow, hback]
    exact readNumber_negative hneg (by omega) htake hrest
  · obtain rfl : Numeral.text (.natural x.toInt.toNat) = b := by simpa [write, hneg] using hb
    have hnat : (x.toInt.toNat : Int) = x.toInt := Int.toNat_of_nonneg (Int.not_lt.mp hneg)
    have hlt : x.toInt.toNat < Nat.pow 2 (w.bits - 1) := by omega
    have htake : toInteger w (.natural x.toInt.toNat) = .ok x := by
      simp only [toInteger, if_pos hlt]
      rw [← BitVec.ofInt_natCast, hnat, hback]
    exact readNumber_natural (by omega) htake hrest

theorem choice {first : String} {more : List String} (hnames : (first :: more).Nodup)
    (i : Fin (more.length + 1)) : ReadsBack limit depth (.choice first more) i := by
  intro b hb rest _
  obtain rfl : Json.quote (choiceName first more i) = b := Except.ok.inj hb
  have hchoice : choice? first more (choiceName first more i) = some i := by
    refine List.finIdxOf?_eq_some_iff.mpr ⟨rfl, ?_⟩
    intro j hj hsame
    obtain rfl : j = i := List.nodup_iff_injective_get.mp hnames hsame
    exact Nat.lt_irrefl _ hj
  have hname := readText_quote "variant identifier" (choiceName first more i) rest
  rw [Json.quote, List.cons_append] at hname ⊢
  refine (bind_ok (firstByte_cons (by decide) _)).trans ?_
  rw [if_neg (by decide), if_pos rfl, readName, bind_ok hname, hchoice]
  rfl

end ReadsBack

/-! ## Members -/

/-- What the members of an object make of what was read before. -/
inductive Fills (member : String → β → Scan β) : β → List (String × Bytes) → β → Prop
  | nil (acc : β) : Fills member acc [] acc
  | cons {acc acc' acc'' : β} {name : String} {b : Bytes} {more : List (String × Bytes)}
      (hmember : ∀ rest, Stops rest → member name acc (0x3a :: b ++ rest) = .ok (acc', rest))
      (hmore : Fills member acc' more acc'') : Fills member acc ((name, b) :: more) acc''

/-- The text of members, each of them with the comma in front. -/
def memberTexts (members : List (String × Bytes)) : Bytes :=
  members.flatMap fun p => 0x2c :: (Json.quote p.1 ++ 0x3a :: p.2)

/-- Behind a member stands a comma or the end of the object. -/
theorem stops_memberTexts (members : List (String × Bytes)) (rest : Bytes) :
    Stops (memberTexts members ++ 0x7d :: rest) := by
  cases members with
  | nil =>
    intro c hc
    obtain rfl : c = 0x7d := by simpa [memberTexts] using hc.symm
    decide
  | cons p more =>
    intro c hc
    obtain rfl : c = 0x2c := by simpa [memberTexts] using hc.symm
    decide

variable {member : String → β → Scan β}

/-- The name of a member and what is made of it. -/
theorem foldMembers_name {acc acc' : β} {name : String} {b rest : Bytes}
    (hmember : member name acc (0x3a :: b ++ rest) = .ok (acc', rest)) (limit : Nat) :
    (do
      Scan.skipByte
      let name ← Scan.text
      let acc ← member name acc
      foldMembers member limit false acc) (Json.quote name ++ (0x3a :: b ++ rest)) =
      foldMembers member limit false acc' rest := by
  rw [Json.quote, List.cons_append, List.append_assoc, bind_ok (skipByte_cons _ _),
    List.cons_append, List.nil_append, bind_ok (Scan.text_quoted _ _), bind_ok hmember]

/-- The end of the object ends its members. -/
theorem foldMembers_end (limit : Nat) (first : Bool) (acc : β) (rest : Bytes) :
    foldMembers member (limit + 1) first acc (0x7d :: rest) = .ok (acc, 0x7d :: rest) := by
  rw [foldMembers]
  have hnext : Scan.nextMember first (0x7d :: rest) = .ok (false, 0x7d :: rest) := by
    rw [Scan.nextMember, bind_ok (peek_cons (by decide) _)]
    rfl
  rw [bind_ok hnext]
  rfl

/-- Members behind the first one fill what they fill. -/
theorem Fills.fold_more {acc acc' : β} {members : List (String × Bytes)}
    (h : Fills member acc members acc') {limit : Nat} (hlimit : members.length < limit)
    (rest : Bytes) :
    foldMembers member limit false acc (memberTexts members ++ 0x7d :: rest) =
      .ok (acc', 0x7d :: rest) := by
  induction h generalizing limit with
  | nil acc =>
    obtain ⟨limit, rfl⟩ := Nat.exists_eq_succ_of_ne_zero (Nat.ne_of_gt hlimit)
    exact foldMembers_end limit false acc rest
  | @cons acc acc' acc'' name b more hmember hmore ih =>
    obtain ⟨limit, rfl⟩ := Nat.exists_eq_succ_of_ne_zero (Nat.ne_of_gt (Nat.zero_lt_of_lt hlimit))
    have htexts : memberTexts ((name, b) :: more) ++ 0x7d :: rest =
        0x2c :: (Json.quote name ++ (0x3a :: b ++ (memberTexts more ++ 0x7d :: rest))) := by
      simp [memberTexts]
    have hnext : ∀ s, Scan.nextMember false (0x2c :: (Json.quote name ++ s)) =
        .ok (true, Json.quote name ++ s) := by
      intro s
      rw [Scan.nextMember, bind_ok (peek_cons (by decide) _), Json.quote]
      refine (bind_ok (skipByte_cons 0x2c _)).trans ?_
      rw [List.cons_append, bind_ok (peek_cons (by decide) _)]
      rfl
    rw [htexts, foldMembers, bind_ok (hnext _), if_pos rfl,
      foldMembers_name (hmember _ (stops_memberTexts more rest))]
    exact ih (Nat.lt_of_succ_lt_succ hlimit)

/-- **The members of an object** fill what they fill, up to its end. -/
theorem Fills.fold {acc acc' : β} {members : List (String × Bytes)}
    (h : Fills member acc members acc') {limit : Nat} (hlimit : members.length < limit)
    (rest : Bytes) :
    foldMembers member limit true acc
        (Json.joinComma (members.map fun p => Json.quote p.1 ++ 0x3a :: p.2) ++ 0x7d :: rest) =
      .ok (acc', 0x7d :: rest) := by
  obtain ⟨limit, rfl⟩ := Nat.exists_eq_succ_of_ne_zero (Nat.ne_of_gt (Nat.zero_lt_of_lt hlimit))
  cases h with
  | nil => exact foldMembers_end limit true acc rest
  | @cons _ acc' _ name b more hmember hmore =>
    have htexts : Json.joinComma (((name, b) :: more).map fun p => Json.quote p.1 ++ 0x3a :: p.2)
        ++ 0x7d :: rest = Json.quote name ++ (0x3a :: b ++ (memberTexts more ++ 0x7d :: rest)) := by
      simp [Json.joinComma, memberTexts, List.flatMap_map]
    have hnext : ∀ s, Scan.nextMember true (Json.quote name ++ s) =
        .ok (true, Json.quote name ++ s) := by
      intro s
      rw [Scan.nextMember, Json.quote, List.cons_append, bind_ok (peek_cons (by decide) _)]
      rfl
    rw [htexts, foldMembers, bind_ok (hnext _), if_pos rfl,
      foldMembers_name (hmember _ (stops_memberTexts more rest))]
    exact hmore.fold_more (Nat.lt_of_succ_lt_succ hlimit) rest

/-! ## Records -/

/-- The names of the fields of a record. -/
def names : Fields → List String
  | .done => []
  | .field name _ _ more => name :: names more

/-- All fields have got their values. -/
def filled : (fs : Fields) → fs.Value → Partial fs
  | .done, _ => ()
  | .field _ _ s more, (v : s.Value × more.Value) =>
    ((some v.1, filled more v.2) : Option s.Value × Partial more)

theorem complete_filled (fs : Fields) (v : fs.Value) :
    Partial.complete fs (filled fs v) = .ok v := by
  match fs, v with
  | .done, () => rfl
  | .field _ _ s more, (v, rest) =>
    have ih := complete_filled more rest
    simp only [Partial.complete, filled, ih]
    rfl

/-- All values of the fields read back. -/
def FieldsReadBack (limit depth : Nat) : (fs : Fields) → fs.Value → Prop
  | .done, _ => True
  | .field _ _ s more, (v : s.Value × more.Value) =>
    ReadsBack limit depth s v.1 ∧ FieldsReadBack limit depth more v.2

theorem map_fst_writeFields {fs : Fields} {v : fs.Value} {parts : List (String × Bytes)}
    (h : writeFields fs v = .ok parts) : parts.map Prod.fst = names fs := by
  match fs, v with
  | .done, () =>
    obtain rfl : [] = parts := Except.ok.inj h
    rfl
  | .field name _ s more, (v, rest) =>
    obtain ⟨x, hx, h⟩ := bind_eq_ok.mp h
    obtain ⟨parts', hrest, h⟩ := bind_eq_ok.mp h
    obtain rfl : (name, x) :: parts' = parts := Except.ok.inj h
    rw [List.map_cons, map_fst_writeFields hrest, names]

/-- Members that are meant for later fields pass the first one by. -/
theorem Fills.pass {limit depth : Nat} {name : String} {presence : Presence} {s : Shape}
    {more : Fields} {q q' : Partial more} {members : List (String × Bytes)}
    (h : Fills (fun key acc => readField limit more key acc depth) q members q')
    (hnames : ∀ p ∈ members, p.1 ≠ name) (x : Option s.Value) :
    Fills (fun key acc => readField limit (.field name presence s more) key acc depth)
      ((x, q) : Option s.Value × Partial more) members
      ((x, q') : Option s.Value × Partial more) := by
  induction h with
  | nil acc => exact .nil _
  | @cons acc acc' acc'' key b rest hmember hmore ih =>
    refine .cons ?_ (ih fun p hp => hnames p (List.mem_cons_of_mem _ hp))
    intro t ht
    have hne : key ≠ name := hnames (key, b) List.mem_cons_self
    simp only [readField, if_neg hne]
    rw [bind_ok (hmember t ht)]
    rfl

/-- The members that are written for the fields fill them all. -/
theorem fills_writeFields {limit depth : Nat} {fs : Fields} {v : fs.Value}
    {parts : List (String × Bytes)} (hparts : writeFields fs v = .ok parts)
    (hnames : (names fs).Nodup) (hback : FieldsReadBack limit depth fs v) :
    Fills (fun key acc => readField limit fs key acc depth) (Partial.none fs) parts
      (filled fs v) := by
  match fs, v with
  | .done, () =>
    obtain rfl : [] = parts := Except.ok.inj hparts
    exact .nil _
  | .field name _ s more, (v, rest) =>
    obtain ⟨x, hx, hparts⟩ := bind_eq_ok.mp hparts
    obtain ⟨parts', hrest, hparts⟩ := bind_eq_ok.mp hparts
    obtain rfl : (name, x) :: parts' = parts := Except.ok.inj hparts
    obtain ⟨hname, hnames'⟩ := List.nodup_cons.mp hnames
    obtain ⟨hv, hmore⟩ := hback
    refine .cons ?_ ((fills_writeFields hrest hnames' hmore).pass ?_ (some v))
    · intro t ht
      simp only [readField, if_true, Partial.none, Option.isSome_none, Bool.false_eq_true,
        if_false, List.cons_append]
      rw [bind_ok (colon_cons _), bind_ok (hv x hx t ht)]
      rfl
    · intro p hp heq
      have := List.mem_map_of_mem (f := Prod.fst) hp
      rw [map_fst_writeFields hrest, heq] at this
      exact hname this

/-- **A record reads back**, if its fields do and have different names. -/
theorem ReadsBack.record {limit depth : Nat} {name : String} {fs : Fields} {v : fs.Value}
    (hnames : (names fs).Nodup) (hlimit : (names fs).length < limit)
    (hback : FieldsReadBack limit depth fs v) :
    ReadsBack limit (depth + 1) (.record name fs) v := by
  intro b hb rest _
  obtain ⟨parts, hparts, hb⟩ := bind_eq_ok.mp hb
  obtain rfl : Json.objectText parts = b := Except.ok.inj hb
  have hlength : parts.length < limit := by
    rw [← map_fst_writeFields hparts, List.length_map] at hlimit
    exact hlimit
  have hfold := (fills_writeFields hparts hnames hback).fold hlength rest
  rw [Json.objectText, List.cons_append, List.append_assoc]
  refine (bind_ok (firstByte_cons (by decide) _)).trans ?_
  rw [if_neg (by decide), if_pos rfl, descend, bind_ok (skipByte_cons _ _)]
  refine upTo_ok (t := 0x7d :: rest) ?_ rfl
  rw [List.singleton_append, bind_ok hfold, complete_filled]
  rfl

/-! ## Whole texts -/

/-- A value that reads back is the value of its whole text. -/
theorem decode_encode {s : Shape} {v : s.Value} {b : Bytes} (hb : encode s v = .ok b)
    (hback : ReadsBack (b.length + 1) Json.maxDepth s v) : decode s b = .ok v := by
  simp only [encode] at hb
  cases hwrite : write s v with
  | error m => simp [hwrite] at hb
  | ok b' =>
    obtain rfl : b' = b := by simpa [hwrite] using hb
    have hread := hback b' hwrite [] (by simp [Stops])
    rw [List.append_nil] at hread
    simp only [decode, Scan.whole, hread, Json.dropBlanks, List.dropWhile_nil]

end JsonForm

end WireCall
