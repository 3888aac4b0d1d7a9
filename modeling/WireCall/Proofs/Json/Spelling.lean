import Mathlib.Data.List.Induction
import WireCall.Proofs.Json.Grammar
import WireCall.Proofs.Results

/-!
# Texts and natural numbers are read as they are spelled

Of what is between quotes the reader makes the text that it spells, and refuses what spells none
(`Json.Scan.text_eq_ok_iff`). A number is taken for a natural one only where it is written with
digits alone, and then its digits are those of the number (`Json.Scan.numeral_eq_natural`).
-/

namespace WireCall

namespace Json

/-! ## Texts -/

theorem Spells.inside {w b : Bytes} (h : Spells w b) : Inside w := by
  induction h with
  | nil => exact .nil
  | plain hquote hbackslash hcontrol _ ih => exact .plain hquote hbackslash hcontrol ih
  | escape he _ ih => exact .escape (by rw [he]; rfl) ih
  | unicode hx _ ih => exact .unicode (by rw [hx]; rfl) ih
  | pair _ hx hy _ ih => exact .unicode (by rw [hx]; rfl) (.unicode (by rw [hy]; rfl) ih)

/-- Whether a byte between quotes stands for itself. -/
def isUnescaped (c : UInt8) : Bool := c ≠ 0x22 && c ≠ 0x5c && !decide (c < 0x20)

/-- Bytes that need no escape spell themselves. -/
theorem Spells.of_unescaped {w : Bytes} (h : w.all isUnescaped = true) : Spells w w := by
  induction w with
  | nil => exact .nil
  | cons c w ih =>
    simp only [List.all_cons, isUnescaped, Bool.and_eq_true, Bool.not_eq_true', decide_eq_true_eq,
      decide_eq_false_iff_not] at h
    obtain ⟨⟨⟨hquote, hbackslash⟩, hcontrol⟩, hmore⟩ := h
    exact .plain hquote hbackslash hcontrol (ih hmore)

theorem ne_of_escape? {e : UInt8} (he : (escape? e).isSome) : e ≠ 0x75 := by
  rintro rfl
  cases he

/-! ### Characters by their numbers -/

theorem hexValue?_lt {c : UInt8} {n : Nat} (h : hexValue? c = some n) : n < 16 := by
  have hbound : ∀ low high : UInt8, ∀ base : Nat, low ≤ c ∧ c ≤ high → high.toNat < base + 16 →
      c.toNat - base < 16 := by
    intro low high base hrange hhigh
    have hle := UInt8.le_iff_toNat_le.mp hrange.2
    omega
  unfold hexValue? at h
  split at h
  · rename_i hrange
    obtain rfl := Option.some.inj h
    exact hbound _ _ _ hrange (by decide)
  split at h
  · rename_i hrange
    obtain rfl := Option.some.inj h
    exact hbound _ _ _ hrange (by decide)
  split at h
  · rename_i hrange
    obtain rfl := Option.some.inj h
    exact hbound _ _ _ hrange (by decide)
  · cases h

theorem hexQuad?_lt {x₁ x₂ x₃ x₄ : UInt8} {n : Nat} (h : hexQuad? x₁ x₂ x₃ x₄ = some n) :
    n < 0x10000 := by
  unfold hexQuad? at h
  split at h
  · rename_i h₁ h₂ h₃ h₄
    have := hexValue?_lt h₁
    have := hexValue?_lt h₂
    have := hexValue?_lt h₃
    have := hexValue?_lt h₄
    obtain rfl := Option.some.inj h
    omega
  · cases h

theorem valid_toNat (c : Char) : c.toNat < 0xD800 ∨ 0xDFFF < c.toNat ∧ c.toNat < 0x110000 :=
  c.valid

theorem exists_char {n : Nat} (h : n < 0xD800 ∨ 0xDFFF < n ∧ n < 0x110000) :
    ∃ c : Char, c.toNat = n := by
  refine ⟨Char.ofNat n, ?_⟩
  rw [Char.ofNat, dif_pos h]
  rfl

/-- Sixteen bits that are no half of a surrogate pair are the number of a character. -/
theorem exists_char_of_single {n : Nat} (hn : n < 0x10000) (htrailing : isTrailing n = false)
    (hleading : isLeading n = false) : ∃ c : Char, c.toNat = n := by
  simp only [isTrailing, isLeading, Bool.and_eq_false_iff, decide_eq_false_iff_not] at *
  exact exists_char (by omega)

/-- A surrogate pair is that of a character. -/
theorem exists_char_of_pair {n m : Nat} (hleading : isLeading n = true)
    (htrailing : isTrailing m = true) :
    ∃ c : Char, 0x10000 ≤ c.toNat ∧ n = 0xD800 + (c.toNat - 0x10000) / 0x400 ∧
      m = 0xDC00 + (c.toNat - 0x10000) % 0x400 := by
  simp only [isTrailing, isLeading, Bool.and_eq_true, decide_eq_true_eq] at *
  obtain ⟨c, hc⟩ := exists_char (n := (n - 0xD800) * 0x400 + (m - 0xDC00) + 0x10000) (by omega)
  exact ⟨c, by omega, by omega, by omega⟩

section Escapes

variable {x₁ x₂ x₃ x₄ y₁ y₂ y₃ y₄ : UInt8} {c : Char}

/-- A character is read from the escape of its number. -/
theorem readBytes_char (hx : hexQuad? x₁ x₂ x₃ x₄ = some c.toNat) (acc rest : Bytes) :
    readBytes acc (0x5c :: 0x75 :: x₁ :: x₂ :: x₃ :: x₄ :: rest) =
      readBytes ((String.utf8EncodeChar c).reverse ++ acc) rest := by
  have hvalid := valid_toNat c
  have htrailing : isTrailing c.toNat = false := by
    simp only [isTrailing, Bool.and_eq_false_iff, decide_eq_false_iff_not]
    omega
  have hleading : isLeading c.toNat = false := by
    simp only [isLeading, Bool.and_eq_false_iff, decide_eq_false_iff_not]
    omega
  rw [readBytes_hex hx htrailing hleading, codePoint, Char.ofNat_toNat]

/-- A character beyond sixteen bits is read from the escapes of its surrogate pair. -/
theorem readBytes_pair (hlarge : 0x10000 ≤ c.toNat)
    (hx : hexQuad? x₁ x₂ x₃ x₄ = some (0xD800 + (c.toNat - 0x10000) / 0x400))
    (hy : hexQuad? y₁ y₂ y₃ y₄ = some (0xDC00 + (c.toNat - 0x10000) % 0x400))
    (acc rest : Bytes) :
    readBytes acc
        (0x5c :: 0x75 :: x₁ :: x₂ :: x₃ :: x₄ :: 0x5c :: 0x75 :: y₁ :: y₂ :: y₃ :: y₄ :: rest) =
      readBytes ((String.utf8EncodeChar c).reverse ++ acc) rest := by
  have hvalid := valid_toNat c
  generalize hn : 0xD800 + (c.toNat - 0x10000) / 0x400 = n at hx
  generalize hm : 0xDC00 + (c.toNat - 0x10000) % 0x400 = m at hy
  have hleading : isLeading n = true ∧ isTrailing n = false := by
    simp only [isLeading, isTrailing, Bool.and_eq_true, decide_eq_true_eq, Bool.and_eq_false_iff,
      decide_eq_false_iff_not]
    omega
  have htrailing : isTrailing m = true := by
    simp only [isTrailing, Bool.and_eq_true, decide_eq_true_eq]
    omega
  have hback : (n - 0xD800) * 0x400 + (m - 0xDC00) + 0x10000 = c.toNat := by omega
  rw [readBytes.eq_def]
  simp [hx, hy, hleading.1, hleading.2, htrailing, hback, codePoint]

/-- The first half of a surrogate pair is read only with an escape of the other one behind it. -/
theorem Inside.exists_trailing {w : Bytes} (h : Inside w) {n : Nat}
    (hx : hexQuad? x₁ x₂ x₃ x₄ = some n) (htrailing : isTrailing n = false)
    (hleading : isLeading n = true) {acc rest : Bytes} {result : Bytes × Bytes}
    (hread : readBytes acc (0x5c :: 0x75 :: x₁ :: x₂ :: x₃ :: x₄ :: (w ++ 0x22 :: rest)) =
      .ok result) :
    ∃ y₁ y₂ y₃ y₄ m w', w = 0x5c :: 0x75 :: y₁ :: y₂ :: y₃ :: y₄ :: w' ∧ Inside w' ∧
      hexQuad? y₁ y₂ y₃ y₄ = some m ∧ isTrailing m = true := by
  rw [readBytes.eq_def] at hread
  cases h with
  | nil => simp [hx, htrailing, hleading] at hread
  | plain hquote hbackslash hcontrol h => simp [hx, htrailing, hleading, hbackslash] at hread
  | escape he h => simp [hx, htrailing, hleading, ne_of_escape? he] at hread
  | @unicode y₁ y₂ y₃ y₄ w hy h =>
    obtain ⟨m, hm⟩ := Option.isSome_iff_exists.mp hy
    cases hhalf : isTrailing m with
    | false => simp [hx, htrailing, hleading, hm, hhalf] at hread
    | true => exact ⟨y₁, y₂, y₃, y₄, m, w, rfl, h, hm, hhalf⟩

end Escapes

/-! ### What is between quotes -/

/-- **What is spelled is read.** -/
theorem Spells.readBytes {w b : Bytes} (h : Spells w b) (acc rest : Bytes) :
    readBytes acc (w ++ 0x22 :: rest) = .ok (acc.reverse ++ b, rest) := by
  induction h generalizing acc with
  | nil => simpa using readBytes_end acc rest
  | plain hquote hbackslash hcontrol _ ih =>
    rw [List.cons_append, readBytes_plain hquote hbackslash hcontrol, ih]
    simp
  | escape he _ ih =>
    refine (readBytes_escape (ne_of_escape? (by rw [he]; rfl)) he _ _).trans ((ih _).trans ?_)
    simp
  | unicode hx _ ih =>
    refine (readBytes_char hx _ _).trans ((ih _).trans ?_)
    simp
  | pair hlarge hx hy _ ih =>
    refine (readBytes_pair hlarge hx hy _ _).trans ((ih _).trans ?_)
    simp

/-- **What is read is spelled**, by induction on what is left to be read. -/
theorem Inside.spells_of_readBytes {w : Bytes} (h : Inside w) {acc rest b r : Bytes}
    (hread : readBytes acc (w ++ 0x22 :: rest) = .ok (b, r)) :
    r = rest ∧ ∃ b', b = acc.reverse ++ b' ∧ Spells w b' := by
  induction hlength : w.length using Nat.strongRecOn generalizing w acc with
  | ind k ih =>
  subst hlength
  cases h with
  | nil =>
    rw [List.nil_append, readBytes_end] at hread
    obtain ⟨rfl, rfl⟩ := Prod.mk.inj (Except.ok.inj hread)
    exact ⟨rfl, [], (List.append_nil _).symm, .nil⟩
  | @plain c w hquote hbackslash hcontrol h =>
    rw [List.cons_append, readBytes_plain hquote hbackslash hcontrol] at hread
    obtain ⟨rfl, b', rfl, hspells⟩ := ih _ (by simp) h hread rfl
    exact ⟨rfl, c :: b', by simp, .plain hquote hbackslash hcontrol hspells⟩
  | @escape e w he h =>
    obtain ⟨c, hc⟩ := Option.isSome_iff_exists.mp he
    replace hread := (readBytes_escape (ne_of_escape? he) hc _ _).symm.trans hread
    obtain ⟨rfl, b', rfl, hspells⟩ := ih _ (by simp only [List.length_cons]; omega) h hread rfl
    exact ⟨rfl, c :: b', by simp, .escape hc hspells⟩
  | @unicode x₁ x₂ x₃ x₄ w hx h =>
    obtain ⟨n, hn⟩ := Option.isSome_iff_exists.mp hx
    cases htrailing : isTrailing n with
    | true =>
      rw [readBytes.eq_def] at hread
      simp [hn, htrailing] at hread
    | false =>
      cases hleading : isLeading n with
      | false =>
        obtain ⟨c, rfl⟩ := exists_char_of_single (hexQuad?_lt hn) htrailing hleading
        replace hread := (readBytes_char hn _ _).symm.trans hread
        obtain ⟨rfl, b', rfl, hspells⟩ := ih _ (by simp only [List.length_cons]; omega) h hread rfl
        exact ⟨rfl, String.utf8EncodeChar c ++ b', by simp, .unicode hn hspells⟩
      | true =>
        obtain ⟨y₁, y₂, y₃, y₄, m, w, rfl, h, hm, hhalf⟩ :=
          h.exists_trailing hn htrailing hleading hread
        obtain ⟨c, hlarge, hhigh, hlow⟩ := exists_char_of_pair hleading hhalf
        rw [hhigh] at hn
        rw [hlow] at hm
        replace hread := (readBytes_pair hlarge hn hm _ _).symm.trans hread
        obtain ⟨rfl, b', rfl, hspells⟩ := ih _ (by simp only [List.length_cons]; omega) h hread rfl
        exact ⟨rfl, String.utf8EncodeChar c ++ b', by simp, .pair hlarge hn hm hspells⟩

/-- **A text is read as it is spelled**, whatever follows its closing quote. -/
theorem Scan.text_eq_ok_iff {w : Bytes} (h : Inside w) {rest r : Bytes} {t : String} :
    Scan.text (w ++ 0x22 :: rest) = .ok (t, r) ↔ Spells w (Bytes.ofText t) ∧ r = rest := by
  constructor
  · intro hread
    unfold Scan.text at hread
    split at hread
    · cases hread
    · rename_i b r' hbytes
      obtain ⟨rfl, b', hb, hspells⟩ := h.spells_of_readBytes hbytes
      obtain rfl : b = b' := hb
      split at hread
      · rename_i t' htext
        obtain ⟨rfl, rfl⟩ := Prod.mk.inj (Except.ok.inj hread)
        rw [Bytes.ofText_of_toText? htext]
        exact ⟨hspells, rfl⟩
      · cases hread
  · rintro ⟨hspells, rfl⟩
    simp [Scan.text, hspells.readBytes]

/-- The name of a member, if it is a text. -/
def Member.key? (m : Member) : Option String :=
  match Scan.text (m.name ++ [0x22]) with
  | .ok (t, _) => some t
  | .error _ => none

theorem Member.key?_eq_some_iff {m : Member} {name : String} :
    m.key? = some name ↔ m.IsNamed name := by
  constructor
  · intro h
    unfold key? at h
    split at h
    · rename_i htext
      obtain rfl := Option.some.inj h
      exact ((Scan.text_eq_ok_iff m.inside).mp htext).1
    · cases h
  · intro h
    rw [key?, (Scan.text_eq_ok_iff m.inside).mpr ⟨h, rfl⟩]

/-- A member has one name. -/
theorem Member.IsNamed.unique {m : Member} {name name' : String} (h : m.IsNamed name)
    (h' : m.IsNamed name') : name = name' :=
  Option.some.inj ((key?_eq_some_iff.mpr h).symm.trans (key?_eq_some_iff.mpr h'))

/-! ## Natural numbers -/

theorem digitValue_lt {c : UInt8} (hc : isDigit c = true) : digitValue c < 10 := by
  simp only [isDigit, Bool.and_eq_true, decide_eq_true_eq, UInt8.le_iff_toNat_le] at hc
  have hhigh : c.toNat ≤ 57 := hc.2
  rw [digitValue]
  omega

/-- A digit is that of its value. -/
theorem digit_of_value {c : UInt8} (hc : isDigit c = true) :
    UInt8.ofNat (Nat.digitChar (digitValue c)).toNat = c := by
  have hchar : ∀ d : Fin 10, (Nat.digitChar d.val).toNat = 48 + d.val := by decide
  have hlow : 48 ≤ c.toNat := by
    simp only [isDigit, Bool.and_eq_true, decide_eq_true_eq, UInt8.le_iff_toNat_le] at hc
    exact hc.1
  have hvalue : 48 + digitValue c = c.toNat := by
    rw [digitValue]
    omega
  rw [hchar ⟨digitValue c, digitValue_lt hc⟩, hvalue, UInt8.ofNat_toNat]

/-- One more digit at the end of a number. -/
theorem text_natural_step {n d : Nat} (hn : n ≠ 0) (hd : d < 10) :
    Numeral.text (.natural (n * 10 + d)) =
      Numeral.text (.natural n) ++ [UInt8.ofNat (Nat.digitChar d).toNat] := by
  have hdiv : (n * 10 + d) / 10 = n := by omega
  have hmod : (n * 10 + d) % 10 = d := by omega
  simp only [Numeral.text, Double.digitText]
  rw [Nat.toDigits_of_base_le (by decide) (by omega), List.map_append, hdiv, hmod]
  rfl

/-- **Digits that do not start with a zero** are those of the number that they spell. -/
theorem text_continued {c : UInt8} {more : Bytes} (hc : isDigit c = true) (hzero : c ≠ 0x30)
    (hmore : AreDigits more) :
    Numeral.text (.natural (continued (digitValue c) more)) = c :: more := by
  induction more using List.reverseRecOn with
  | nil =>
    have htext : Numeral.text (.natural (digitValue c)) =
        [UInt8.ofNat (Nat.digitChar (digitValue c)).toNat] := by
      rw [Numeral.text, Double.digitText, Nat.toDigits_of_lt_base (digitValue_lt hc)]
      rfl
    rw [continued, List.foldl_nil, htext, digit_of_value hc]
  | append_singleton more d ih =>
    have hd : isDigit d = true := hmore d (by simp)
    have hpos : digitValue c ≠ 0 := by
      intro h
      refine hzero ?_
      rw [← digit_of_value hc, h]
      rfl
    have hle := le_continued (digitValue c) more
    have hnext : continued (digitValue c) (more ++ [d]) =
        continued (digitValue c) more * 10 + digitValue d := by
      rw [continued, List.foldl_append]
      rfl
    rw [hnext, text_natural_step (by omega) (digitValue_lt hd), digit_of_value hd,
      ih fun e he => hmore e (List.mem_append_left _ he)]
    rfl

/-- The digits that are taken stand at the front. -/
theorem takeDigits_eq (bound value count : Nat) (s : Bytes) :
    ∃ digits, AreDigits digits ∧ s = digits ++ (takeDigits bound value count s).rest ∧
      (takeDigits bound value count s).value = continued value digits := by
  induction s generalizing value count with
  | nil => exact ⟨[], nofun, rfl, rfl⟩
  | cons c s ih =>
    rw [takeDigits]
    split
    · rename_i hc
      simp only
      split
      · obtain ⟨digits, hdigits, hs, hvalue⟩ := ih (value * 10 + digitValue c) (count + 1)
        refine ⟨c :: digits, ?_, by rw [List.cons_append, ← hs], hvalue⟩
        intro d hd
        rcases List.mem_cons.mp hd with rfl | hd
        · exact hc
        · exact hdigits d hd
      · exact ⟨[], nofun, rfl, rfl⟩
    · exact ⟨[], nofun, rfl, rfl⟩

variable {positive : Bool} {n m : Nat} {s r : Bytes}

/-- What is a double is no natural number. -/
theorem Scan.double_ne_natural (x : Scan Double) (s r : Bytes) (n : Nat) :
    (Numeral.double <$> x) s ≠ .ok (.natural n, r) := by
  intro h
  rw [← bind_pure_comp] at h
  obtain ⟨⟨y, t⟩, -, h⟩ := bind_eq_ok.mp h
  cases Except.ok.inj h

theorem Scan.integerOf_eq_natural (h : Scan.integerOf positive m = .natural n) :
    positive = true ∧ m = n := by
  unfold integerOf at h
  split at h
  · rename_i hpositive
    exact ⟨hpositive, Numeral.natural.inj h⟩
  · split at h <;> cases h

/-- Behind its digits, a natural number goes on in no way. -/
theorem Scan.afterInteger_eq_natural (hdigit : startsWithDigit s = false)
    (h : Scan.afterInteger positive m s = .ok (.natural n, r)) :
    positive = true ∧ m = n ∧ s = r ∧ Stops s := by
  unfold afterInteger at h
  split at h
  · rename_i c rest
    split at h
    · exact absurd h (double_ne_natural _ _ _ _)
    · rename_i hpoint
      split at h
      · exact absurd h (double_ne_natural _ _ _ _)
      · rename_i hletter
        obtain ⟨hn, rfl⟩ := Prod.mk.inj (Except.ok.inj h)
        obtain ⟨hpositive, rfl⟩ := integerOf_eq_natural hn
        simp only [Bool.or_eq_true, decide_eq_true_eq, not_or] at hletter
        exact ⟨hpositive, rfl, rfl, .cons hdigit hpoint hletter.1 hletter.2 rest⟩
  · obtain ⟨hn, rfl⟩ := Prod.mk.inj (Except.ok.inj h)
    obtain ⟨hpositive, rfl⟩ := integerOf_eq_natural hn
    exact ⟨hpositive, rfl, rfl, nofun⟩

/-- **What is read as a natural number** has no sign, is written with its digits, and does not go
on. -/
theorem Scan.numeral_eq_natural (h : Scan.numeral positive s = .ok (.natural n, r)) :
    positive = true ∧ s = Numeral.text (.natural n) ++ r ∧ Stops r := by
  unfold numeral at h
  split at h
  · cases h
  · rename_i c rest
    split at h
    · rename_i hc
      split at h
      · cases h
      · rename_i hdigit
        obtain ⟨hpositive, rfl, rfl, hstops⟩ := afterInteger_eq_natural (by simpa using hdigit) h
        rw [hc]
        exact ⟨hpositive, rfl, hstops⟩
    · rename_i hzero
      split at h
      · rename_i hc
        simp only at h
        obtain ⟨digits, hdigits, hrest, hvalue⟩ :=
          takeDigits_eq 0x10000000000000000 (digitValue c) 0 rest
        split at h
        · unfold longInteger at h
          simp only at h
          split at h <;> exact absurd h (double_ne_natural _ _ _ _)
        · rename_i hdigit
          obtain ⟨hpositive, rfl, rfl, hstops⟩ :=
            afterInteger_eq_natural (by simpa using hdigit) h
          refine ⟨hpositive, ?_, hstops⟩
          rw [takeSignificand, hvalue, text_continued hc hzero hdigits, List.cons_append, ← hrest]
      · cases h

theorem IsWhole.areDigits {b : Bytes} (h : IsWhole b) : AreDigits b := by
  cases h with
  | zero => exact fun c hc => by rw [List.mem_singleton.mp hc]; rfl
  | digits hdigit _ hmore =>
    intro c hc
    rcases List.mem_cons.mp hc with rfl | hc
    · exact hdigit
    · exact hmore c hc

/-- Where digits end, if what follows them does not start with one. -/
theorem AreDigits.append_inj {a b x y : Bytes} (ha : AreDigits a) (hb : AreDigits b)
    (hx : startsWithDigit x = false) (hy : startsWithDigit y = false) (h : a ++ x = b ++ y) :
    a = b ∧ x = y := by
  have hends : ∀ {d z : Bytes}, AreDigits d → startsWithDigit z = false →
      (d ++ z).takeWhile isDigit = d := by
    intro d z hd hz
    rw [List.takeWhile_append_of_pos hd]
    cases z with
    | nil => exact List.append_nil d
    | cons c z => rw [List.takeWhile_cons_of_neg (by simpa [startsWithDigit] using hz),
        List.append_nil]
  have hsame : a = b := by rw [← hends ha hx, h, hends hb hy]
  exact ⟨hsame, List.append_cancel_left (hsame ▸ h)⟩

/-- **A number is natural** only if its digits are all there is of it. -/
theorem IsNumber.eq_natural {b rest : Bytes} (hb : IsNumber b) (hrest : Stops rest)
    (h : b ++ rest = Numeral.text (.natural n) ++ r) (hr : Stops r) :
    b = Numeral.text (.natural n) ∧ rest = r := by
  obtain ⟨hdigits, -, c, more, hcons, -⟩ := text_natural n
  have hc : isDigit c = true := hdigits c (by rw [hcons]; exact List.mem_cons_self)
  obtain @⟨sign, whole, fraction, exponent, hsign, hwhole, hfraction, hexponent⟩ := hb
  rcases hsign with rfl | rfl
  · simp only [List.nil_append, List.append_assoc] at h ⊢
    have hstart : startsWithDigit (fraction ++ (exponent ++ rest)) = false := by
      cases hfraction with
      | some _ _ => rfl
      | none =>
        cases hexponent with
        | some hletter _ _ _ => rcases hletter with rfl | rfl <;> rfl
        | none => exact hrest.startsWithDigit
    obtain ⟨rfl, hbehind⟩ :=
      hwhole.areDigits.append_inj hdigits hstart hr.startsWithDigit h
    -- behind the digits stands nothing that belongs to the number
    cases hfraction with
    | some _ _ => exact absurd rfl (hr 0x2e (by rw [← hbehind]; rfl)).2.1
    | none =>
      cases hexponent with
      | @some letter _ _ hletter _ _ _ =>
        have hstops := hr letter (by rw [← hbehind]; rfl)
        rcases hletter with rfl | rfl
        · exact absurd rfl hstops.2.2.1
        · exact absurd rfl hstops.2.2.2
      | none => exact ⟨by simp, hbehind⟩
  · rw [hcons, List.append_assoc, List.cons_append] at h
    obtain ⟨rfl, -⟩ := List.cons.inj h
    cases hc

end Json

end WireCall
