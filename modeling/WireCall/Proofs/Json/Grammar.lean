import WireCall.Proofs.Json.Scan

/-!
# JSON texts, whoever wrote them

What a value may look like in a JSON text: blanks stand anywhere between its parts, numbers have
fractions and exponents, and in a text any character may be escaped in any of the ways there are.
Nothing here depends on how a text is read.

A character between quotes is one byte or more that stand for themselves, or an escape, so what is
between quotes *spells* some bytes (`Json.Spells`). It may also be well-formed (`Json.Inside`) and
spell nothing, as one half of a surrogate pair does without the other.
-/

namespace WireCall

namespace Json

/-- Whether all bytes are blanks. -/
def Blanks (b : Bytes) : Prop := ∀ c ∈ b, isBlank c = true

instance (b : Bytes) : Decidable (Blanks b) := List.decidableBAll _ b

theorem Stops.cons {c : UInt8} (hdigit : isDigit c = false) (hpoint : c ≠ 0x2e) (hsmall : c ≠ 0x65)
    (hlarge : c ≠ 0x45) (rest : Bytes) : Stops (c :: rest) := by
  intro d hd
  obtain rfl := Option.some.inj hd
  exact ⟨hdigit, hpoint, hsmall, hlarge⟩

/-- A blank does not go on like a number. -/
theorem Stops.of_blanks {b rest : Bytes} (hb : Blanks b) (hrest : Stops rest) :
    Stops (b ++ rest) := by
  cases b with
  | nil => exact hrest
  | cons c b =>
    intro d hd
    obtain rfl := Option.some.inj hd
    have hblank := hb c List.mem_cons_self
    simp only [isBlank, Bool.or_eq_true, decide_eq_true_eq] at hblank
    rcases hblank with ((rfl | rfl) | rfl) | rfl <;> decide

/-! ## Numbers -/

/-- Whether all bytes are digits. -/
def AreDigits (b : Bytes) : Prop := ∀ c ∈ b, isDigit c = true

/-- The digits in front of the point: only zero starts with a zero. -/
inductive IsWhole : Bytes → Prop
  | zero : IsWhole [0x30]
  | digits {c : UInt8} {more : Bytes} (hdigit : isDigit c = true) (hzero : c ≠ 0x30)
      (hmore : AreDigits more) : IsWhole (c :: more)

/-- A point with the digits behind it, if there is one. -/
inductive IsFraction : Bytes → Prop
  | none : IsFraction []
  | some {digits : Bytes} (hsome : digits ≠ []) (hdigits : AreDigits digits) :
      IsFraction (0x2e :: digits)

/-- An exponent, if there is one. -/
inductive IsExponent : Bytes → Prop
  | none : IsExponent []
  | some {letter : UInt8} {sign digits : Bytes} (hletter : letter = 0x65 ∨ letter = 0x45)
      (hsign : sign = [] ∨ sign = [0x2b] ∨ sign = [0x2d]) (hsome : digits ≠ [])
      (hdigits : AreDigits digits) : IsExponent (letter :: (sign ++ digits))

/-- A number. -/
inductive IsNumber : Bytes → Prop
  | intro {sign whole fraction exponent : Bytes} (hsign : sign = [] ∨ sign = [0x2d])
      (hwhole : IsWhole whole) (hfraction : IsFraction fraction) (hexponent : IsExponent exponent) :
      IsNumber (sign ++ (whole ++ (fraction ++ exponent)))

/-! ## Texts -/

/-- Bytes with quotes around them. -/
def enclosed (w : Bytes) : Bytes := 0x22 :: (w ++ [0x22])

/-- What may stand between quotes. -/
inductive Inside : Bytes → Prop
  | nil : Inside []
  | plain {c : UInt8} {w : Bytes} (hquote : c ≠ 0x22) (hbackslash : c ≠ 0x5c)
      (hcontrol : ¬ c < 0x20) (h : Inside w) : Inside (c :: w)
  | escape {e : UInt8} {w : Bytes} (he : (escape? e).isSome) (h : Inside w) :
      Inside (0x5c :: e :: w)
  | unicode {x₁ x₂ x₃ x₄ : UInt8} {w : Bytes} (hx : (hexQuad? x₁ x₂ x₃ x₄).isSome)
      (h : Inside w) : Inside (0x5c :: 0x75 :: x₁ :: x₂ :: x₃ :: x₄ :: w)

/-- **What stands between quotes spells some bytes.** A character may be escaped by its number; if
this is beyond sixteen bits, by the two halves of a surrogate pair. -/
inductive Spells : Bytes → Bytes → Prop
  | nil : Spells [] []
  | plain {c : UInt8} {w b : Bytes} (hquote : c ≠ 0x22) (hbackslash : c ≠ 0x5c)
      (hcontrol : ¬ c < 0x20) (h : Spells w b) : Spells (c :: w) (c :: b)
  | escape {e c : UInt8} {w b : Bytes} (he : escape? e = some c) (h : Spells w b) :
      Spells (0x5c :: e :: w) (c :: b)
  | unicode {x₁ x₂ x₃ x₄ : UInt8} {c : Char} {w b : Bytes}
      (hx : hexQuad? x₁ x₂ x₃ x₄ = some c.toNat) (h : Spells w b) :
      Spells (0x5c :: 0x75 :: x₁ :: x₂ :: x₃ :: x₄ :: w) (String.utf8EncodeChar c ++ b)
  | pair {x₁ x₂ x₃ x₄ y₁ y₂ y₃ y₄ : UInt8} {c : Char} {w b : Bytes} (hlarge : 0x10000 ≤ c.toNat)
      (hx : hexQuad? x₁ x₂ x₃ x₄ = some (0xD800 + (c.toNat - 0x10000) / 0x400))
      (hy : hexQuad? y₁ y₂ y₃ y₄ = some (0xDC00 + (c.toNat - 0x10000) % 0x400))
      (h : Spells w b) :
      Spells (0x5c :: 0x75 :: x₁ :: x₂ :: x₃ :: x₄ :: 0x5c :: 0x75 :: y₁ :: y₂ :: y₃ :: y₄ :: w)
        (String.utf8EncodeChar c ++ b)

/-! ## Values -/

/-- A text with blanks around it. -/
structure Padded where
  front : Bytes := []
  value : Bytes
  back : Bytes := []
  blanks_front : Blanks front
  blanks_back : Blanks back

def Padded.text (p : Padded) : Bytes := p.front ++ (p.value ++ p.back)

/-- A member of an object, as it is written. -/
structure Member where
  before : Bytes := []
  /-- what stands between the quotes of the name -/
  name : Bytes
  between : Bytes := []
  value : Padded
  blanks_before : Blanks before
  blanks_between : Blanks between
  inside : Inside name

def Member.text (m : Member) : Bytes :=
  m.before ++ (enclosed m.name ++ (m.between ++ 0x3a :: m.value.text))

/-- Whether the name of a member is the given text. -/
def Member.IsNamed (m : Member) (name : String) : Prop := Spells m.name (Bytes.ofText name)

/-- The first of some texts with commas between them. -/
theorem joinComma_cons {α : Type} (text : α → Bytes) (a : α) (l : List α) :
    joinComma ((a :: l).map text) = text a ++ l.flatMap fun b => 0x2c :: text b := by
  simp [joinComma, List.flatMap_map]

/-- The text of a list; if it is empty, there may be blanks in it all the same. -/
def arrayText (items : List Padded) (blanks : Bytes) : Bytes :=
  0x5b :: (joinComma (items.map Padded.text) ++ (blanks ++ [0x5d]))

/-- The text of an object. -/
def memberText (members : List Member) (blanks : Bytes) : Bytes :=
  0x7b :: (joinComma (members.map Member.text) ++ (blanks ++ [0x7d]))

/-- **The text of a value**, without blanks around it. There is no limit on how deep lists and
objects nest. -/
inductive IsValue : Bytes → Prop
  | null : IsValue nullText
  | bool (x : Bool) : IsValue (boolText x)
  | number {b : Bytes} (h : IsNumber b) : IsValue b
  | text {w : Bytes} (h : Inside w) : IsValue (enclosed w)
  | list {items : List Padded} {blanks : Bytes} (hblanks : Blanks blanks)
      (h : ∀ p ∈ items, IsValue p.value) : IsValue (arrayText items blanks)
  | object {members : List Member} {blanks : Bytes} (hblanks : Blanks blanks)
      (h : ∀ m ∈ members, IsValue m.value.value) : IsValue (memberText members blanks)

/-- **An object**, as it is written. -/
structure Object where
  members : List Member
  /-- the blanks in front of the closing brace -/
  blanks : Bytes := []
  isBlanks : Blanks blanks
  valid : ∀ m ∈ members, IsValue m.value.value

def Object.text (o : Object) : Bytes := memberText o.members o.blanks

/-! ## What a value begins with -/

/-- A digit is neither a blank nor a letter of a literal, a sign, a quote or a bracket. -/
theorem ne_of_isDigit {c d : UInt8} (hc : isDigit c = true) (hd : isDigit d = false) : c ≠ d := by
  rintro rfl
  rw [hc] at hd
  cases hd

theorem isBlank_of_isDigit {c : UInt8} (hc : isDigit c = true) : isBlank c = false := by
  simp [isBlank, ne_of_isDigit hc (rfl : isDigit 0x20 = false),
    ne_of_isDigit hc (rfl : isDigit 0x0a = false), ne_of_isDigit hc (rfl : isDigit 0x09 = false),
    ne_of_isDigit hc (rfl : isDigit 0x0d = false)]

/-- The first byte of a number is a digit or the sign. -/
theorem IsNumber.exists_cons {b : Bytes} (h : IsNumber b) :
    ∃ c more, b = c :: more ∧ (c = 0x2d ∨ isDigit c = true) := by
  obtain ⟨rfl | rfl, hwhole, -, -⟩ := h
  · cases hwhole with
    | zero => exact ⟨_, _, rfl, .inr rfl⟩
    | digits hdigit _ _ => exact ⟨_, _, rfl, .inr hdigit⟩
  · exact ⟨_, _, rfl, .inl rfl⟩

/-- What values begin with that are neither texts nor numbers: the letters of the literals and the
opening brackets. -/
def openers : List UInt8 := [0x6e, 0x74, 0x66, 0x5b, 0x7b]

theorem of_mem_openers {c : UInt8} (hc : c ∈ openers) :
    isBlank c = false ∧ isDigit c = false ∧ c ≠ 0x22 ∧ c ≠ 0x2d ∧ c ≠ 0x5d := by
  simp only [openers, List.mem_cons, List.not_mem_nil, or_false] at hc
  rcases hc with rfl | rfl | rfl | rfl | rfl <;> decide

/-- **A value begins** with a byte that tells what it is: a text with a quote, a number with a digit
or the sign, and all others with another byte that is no blank and ends no list. -/
theorem IsValue.begins {b : Bytes} (h : IsValue b) :
    (∃ w, Inside w ∧ b = enclosed w) ∨
      (IsNumber b ∧ ∃ c more, b = c :: more ∧ (c = 0x2d ∨ isDigit c = true)) ∨
      ∃ c more, b = c :: more ∧ c ∈ openers := by
  cases h with
  | null => exact .inr (.inr ⟨_, _, rfl, by decide⟩)
  | bool x => cases x <;> exact .inr (.inr ⟨_, _, rfl, by decide⟩)
  | number h => exact .inr (.inl ⟨h, h.exists_cons⟩)
  | text h => exact .inl ⟨_, h, rfl⟩
  | list => exact .inr (.inr ⟨_, _, rfl, by decide⟩)
  | object => exact .inr (.inr ⟨_, _, rfl, by decide⟩)

/-- The first byte of a value is no blank, and ends no list. -/
theorem IsValue.exists_cons {b : Bytes} (h : IsValue b) :
    ∃ c more, b = c :: more ∧ isBlank c = false ∧ c ≠ 0x5d := by
  obtain ⟨w, -, rfl⟩ | ⟨-, c, more, rfl, rfl | hdigit⟩ | ⟨c, more, rfl, hc⟩ := h.begins
  · exact ⟨_, _, rfl, by decide, by decide⟩
  · exact ⟨_, _, rfl, by decide, by decide⟩
  · exact ⟨c, more, rfl, isBlank_of_isDigit hdigit, ne_of_isDigit hdigit rfl⟩
  · obtain ⟨hblank, -, -, -, hclose⟩ := of_mem_openers hc
    exact ⟨c, more, rfl, hblank, hclose⟩

/-- A value that does not begin with a quote is no text. -/
theorem IsValue.text_or {b : Bytes} (h : IsValue b) :
    (∃ w, Inside w ∧ b = enclosed w) ∨ ∃ c more, b = c :: more ∧ isBlank c = false ∧ c ≠ 0x22 := by
  obtain htext | ⟨-, c, more, rfl, rfl | hdigit⟩ | ⟨c, more, rfl, hc⟩ := h.begins
  · exact .inl htext
  · exact .inr ⟨_, _, rfl, by decide, by decide⟩
  · exact .inr ⟨c, more, rfl, isBlank_of_isDigit hdigit, ne_of_isDigit hdigit rfl⟩
  · obtain ⟨hblank, -, hquote, -, -⟩ := of_mem_openers hc
    exact .inr ⟨c, more, rfl, hblank, hquote⟩

/-- A value that begins neither with a digit nor with the sign is no number. -/
theorem IsValue.number_or {b : Bytes} (h : IsValue b) :
    IsNumber b ∨ ∃ c more, b = c :: more ∧ isBlank c = false ∧ c ≠ 0x2d ∧ isDigit c = false := by
  obtain ⟨w, -, rfl⟩ | ⟨hnumber, -⟩ | ⟨c, more, rfl, hc⟩ := h.begins
  · exact .inr ⟨_, _, rfl, by decide, by decide, by decide⟩
  · exact .inl hnumber
  · obtain ⟨hblank, hdigit, -, hsign, -⟩ := of_mem_openers hc
    exact .inr ⟨c, more, rfl, hblank, hsign, hdigit⟩

end Json

end WireCall
