import WireCall.Json.Numeral
import WireCall.Json.Print
import WireCall.Json.Quoted

/-!
# Texts and numbers read back

Between its quotes every text is read back as it was written (`Json.Scan.text_quoted`), whatever
follows it. The digits of a number below `2 ^ 64` are read back exactly
(`Json.Scan.numeral_digits`), provided that what follows them does not go on like a number
(`Json.Stops`).
-/

namespace WireCall

namespace Json

/-! ## Quoted text -/

/-- Control characters are read back from their escapes. -/
theorem hexQuad?_control : ∀ n : Fin 32,
    hexQuad? 0x30 0x30 (hexDigit (n.val / 16)) (hexDigit (n.val % 16)) = some n.val ∧
      isTrailing n.val = false ∧ isLeading n.val = false ∧
      codePoint n.val = [UInt8.ofNat n.val] := by
  decide

theorem readBytes_end (acc rest : Bytes) :
    readBytes acc (0x22 :: rest) = .ok (acc.reverse, rest) := by
  rw [readBytes.eq_def]
  rfl

theorem readBytes_escape {e b : UInt8} (hhex : e ≠ 0x75) (he : escape? e = some b)
    (acc rest : Bytes) : readBytes acc (0x5c :: e :: rest) = readBytes (b :: acc) rest := by
  rw [readBytes.eq_def]
  simp [he, hhex]

theorem readBytes_hex {a b c d : UInt8} {n : Nat} (h : hexQuad? a b c d = some n)
    (htrailing : isTrailing n = false) (hleading : isLeading n = false) (acc rest : Bytes) :
    readBytes acc (0x5c :: 0x75 :: a :: b :: c :: d :: rest) =
      readBytes ((codePoint n).reverse ++ acc) rest := by
  rw [readBytes.eq_def]
  simp [h, htrailing, hleading]

theorem readBytes_plain {c : UInt8} (hquote : c ≠ 0x22) (hbackslash : c ≠ 0x5c)
    (hcontrol : ¬ c < 0x20) (acc rest : Bytes) :
    readBytes acc (c :: rest) = readBytes (c :: acc) rest := by
  rw [readBytes.eq_def]
  simp only [if_neg hquote, if_neg hbackslash, if_neg hcontrol]

/-- A byte is read back from the way it is written between quotes. -/
theorem readBytes_quoteByte (c : UInt8) (acc rest : Bytes) :
    readBytes acc (quoteByte c ++ rest) = readBytes (c :: acc) rest := by
  unfold quoteByte
  split
  · subst c; exact readBytes_escape (by decide) rfl acc rest
  split
  · subst c; exact readBytes_escape (by decide) rfl acc rest
  split
  · subst c; exact readBytes_escape (by decide) rfl acc rest
  split
  · subst c; exact readBytes_escape (by decide) rfl acc rest
  split
  · subst c; exact readBytes_escape (by decide) rfl acc rest
  split
  · subst c; exact readBytes_escape (by decide) rfl acc rest
  split
  · subst c; exact readBytes_escape (by decide) rfl acc rest
  split
  · rename_i hcontrol
    have hlt : c.toNat < 32 := UInt8.lt_iff_toNat_lt.mp hcontrol
    obtain ⟨hquad, htrailing, hleading, hcode⟩ := hexQuad?_control ⟨c.toNat, hlt⟩
    refine (readBytes_hex hquad htrailing hleading acc rest).trans ?_
    simp [hcode]
  · rename_i hquote hbackslash _ _ _ _ _ hcontrol
    exact readBytes_plain hquote hbackslash hcontrol acc rest

/-- Bytes are read back up to the closing quote. -/
theorem readBytes_quoted (b acc rest : Bytes) :
    readBytes acc (b.flatMap quoteByte ++ 0x22 :: rest) = .ok (acc.reverse ++ b, rest) := by
  induction b generalizing acc with
  | nil => simpa using readBytes_end acc rest
  | cons c b ih =>
    rw [List.flatMap_cons, List.append_assoc, readBytes_quoteByte, ih]
    simp

/-- **A text is read back**, whatever follows its closing quote. -/
theorem Scan.text_quoted (s : String) (rest : Bytes) :
    Scan.text ((Bytes.ofText s).flatMap quoteByte ++ 0x22 :: rest) = .ok (s, rest) := by
  simp [Scan.text, readBytes_quoted]

/-! ## Numbers -/

/-- What follows does not go on like a number. -/
def Stops (rest : Bytes) : Prop :=
  ∀ c ∈ rest.head?, isDigit c = false ∧ c ≠ 0x2e ∧ c ≠ 0x65 ∧ c ≠ 0x45

/-- The number that digits continue. -/
def continued (value : Nat) (digits : Bytes) : Nat :=
  digits.foldl (fun v c => v * 10 + digitValue c) value

theorem le_continued (value : Nat) (digits : Bytes) : value ≤ continued value digits := by
  induction digits generalizing value with
  | nil => exact Nat.le_refl _
  | cons c digits ih =>
    refine Nat.le_trans ?_ (ih (value * 10 + digitValue c))
    omega

theorem Stops.startsWithDigit {rest : Bytes} (h : Stops rest) : startsWithDigit rest = false := by
  cases rest with
  | nil => rfl
  | cons c rest => exact (h c rfl).1

/-- All digits are taken, if the number that they spell is not too large. -/
theorem takeDigits_append {bound value count : Nat} {digits rest : Bytes}
    (hdigits : ∀ c ∈ digits, isDigit c) (hrest : startsWithDigit rest = false)
    (hbound : continued value digits < bound) :
    takeDigits bound value count (digits ++ rest) =
      ⟨continued value digits, count + digits.length, rest⟩ := by
  induction digits generalizing value count with
  | nil =>
    cases rest with
    | nil => rfl
    | cons c rest =>
      have hc : isDigit c = false := hrest
      simp [takeDigits, hc, continued]
  | cons c digits ih =>
    have hc : isDigit c = true := hdigits c List.mem_cons_self
    have hnext : value * 10 + digitValue c < bound :=
      Nat.lt_of_le_of_lt (le_continued _ digits) hbound
    have hdigits' : ∀ d ∈ digits, isDigit d := fun d hd => hdigits d (List.mem_cons_of_mem c hd)
    simp only [List.cons_append, takeDigits, hc, if_true, hnext]
    rw [ih hdigits' hbound]
    simp only [continued, List.foldl_cons, List.length_cons, Digits.mk.injEq, true_and, and_true]
    omega

/-- The byte of a decimal digit. -/
theorem digit_byte : ∀ d : Fin 10,
    isDigit (UInt8.ofNat (Nat.digitChar d.val).toNat) = true ∧
      digitValue (UInt8.ofNat (Nat.digitChar d.val).toNat) = d.val ∧
      (d.val ≠ 0 → UInt8.ofNat (Nat.digitChar d.val).toNat ≠ 0x30) := by
  decide

/-- The digits of a number spell it, and only zero starts with a zero. -/
theorem text_natural (n : Nat) :
    (∀ c ∈ Numeral.text (.natural n), isDigit c) ∧ continued 0 (Numeral.text (.natural n)) = n ∧
      ∃ c more, Numeral.text (.natural n) = c :: more ∧ (c = 0x30 → n = 0 ∧ more = []) := by
  induction n using Nat.strongRecOn with
  | ind n ih =>
    rcases Nat.lt_or_ge n 10 with hlt | hge
    · obtain ⟨hdigit, hvalue, hzero⟩ := digit_byte ⟨n, hlt⟩
      have htext : Numeral.text (.natural n) = [UInt8.ofNat (Nat.digitChar n).toNat] := by
        rw [Numeral.text, Double.digitText, Nat.toDigits_of_lt_base hlt]
        rfl
      rw [htext]
      refine ⟨by simpa using hdigit, by simpa [continued] using hvalue, _, [], rfl, fun hc => ?_⟩
      exact ⟨Decidable.byContradiction fun hn => hzero hn hc, rfl⟩
    · obtain ⟨hdigit, hvalue, -⟩ := digit_byte ⟨n % 10, Nat.mod_lt n (by decide)⟩
      obtain ⟨hall, hvalue', c, more, hcons, hfirst⟩ := ih (n / 10) (by omega)
      have htext : Numeral.text (.natural n) =
          Numeral.text (.natural (n / 10)) ++ [UInt8.ofNat (Nat.digitChar (n % 10)).toNat] := by
        simp only [Numeral.text, Double.digitText]
        rw [Nat.toDigits_of_base_le (by decide) hge, List.map_append]
        rfl
      rw [htext]
      refine ⟨?_, ?_, c, more ++ [_], by rw [hcons, List.cons_append], fun hc => ?_⟩
      · intro d hd
        rcases List.mem_append.mp hd with hd | hd
        · exact hall d hd
        · obtain rfl := List.mem_singleton.mp hd
          exact hdigit
      · simp only [continued, List.foldl_append] at hvalue' ⊢
        rw [hvalue', List.foldl_cons, List.foldl_nil, hvalue]
        simp only
        omega
      · have := (hfirst hc).1
        omega

/-- **Digits are read back**, if their number fits 64 bits and what follows does not go on like a
number. -/
theorem Scan.numeral_digits {n : Nat} (h : n < 0x10000000000000000) (positive : Bool)
    {rest : Bytes} (hrest : Stops rest) :
    Scan.numeral positive (Numeral.text (.natural n) ++ rest) =
      .ok (Scan.integerOf positive n, rest) := by
  have hafter : ∀ m, Scan.afterInteger positive m rest = .ok (Scan.integerOf positive m, rest) := by
    intro m
    cases rest with
    | nil => rfl
    | cons c rest =>
      obtain ⟨-, hpoint, hsmall, hlarge⟩ := hrest c rfl
      simp [Scan.afterInteger, hpoint, hsmall, hlarge]
  obtain ⟨hall, hvalue, c, more, hcons, hfirst⟩ := text_natural n
  rw [hcons, List.cons_append, Scan.numeral]
  by_cases hc : c = 0x30
  · obtain ⟨rfl, rfl⟩ := hfirst hc
    simp only [hc, if_true, List.nil_append, hrest.startsWithDigit, Bool.false_eq_true, if_false,
      hafter]
  · rw [hcons] at hall hvalue
    have hdigit : isDigit c = true := hall c List.mem_cons_self
    have hmore : continued (digitValue c) more = n := by
      simpa [continued] using hvalue
    have htaken : takeSignificand (digitValue c) 0 (more ++ rest) = ⟨n, 0 + more.length, rest⟩ := by
      rw [takeSignificand, takeDigits_append (fun d hd => hall d (List.mem_cons_of_mem c hd))
        hrest.startsWithDigit (by rw [hmore]; exact h), hmore]
    simp only [if_neg hc, hdigit, if_true, htaken, hrest.startsWithDigit, Bool.false_eq_true,
      if_false, hafter]

/-- The digits of a negative number are those of a natural one. -/
theorem text_negative (i : Int) :
    Numeral.text (.negative i) = 0x2d :: Numeral.text (.natural i.natAbs) := rfl

/-- Behind the sign stands the number that is to be negated, unless it is too far from zero. -/
theorem Scan.integerOf_natAbs {i : Int} (hneg : i < 0) (hlow : -0x8000000000000000 ≤ i) :
    Scan.integerOf false i.natAbs = .negative i := by
  have hfits : ¬(i.natAbs = 0 ∨ 0x8000000000000000 < i.natAbs) := by omega
  have hback : -(i.natAbs : Int) = i := by omega
  simp only [Scan.integerOf, Bool.false_eq_true, if_false, if_neg hfits, hback]

end Json

end WireCall
