/-!
# Bytes

Everything that travels between the two ends of a connection is a list of bytes. This module holds
the readings of such a list that the wire formats use: as UTF-8 text, as a number with its most
significant byte first, and as a number with its least significant byte first. Reading back what
was written gives the same text (`Bytes.toText?_ofText`) and the same number, up to the width
(`Bytes.toNatBE_ofNatBE`).
-/

namespace WireCall

/-- A string of bytes. -/
abbrev Bytes := List UInt8

namespace Bytes

/-! ## Text -/

/-- The UTF-8 bytes of a text. -/
def ofText (s : String) : Bytes := s.toUTF8.data.toList

/-- The text that the bytes spell in UTF-8, if they spell one. -/
def toText? (b : Bytes) : Option String := String.fromUTF8? ⟨b.toArray⟩

@[simp]
theorem toText?_ofText (s : String) : toText? (ofText s) = some s := by
  have hs : (ByteArray.mk (ofText s).toArray).IsValidUTF8 := by
    simpa [ofText] using s.isValidUTF8
  rw [toText?, String.fromUTF8?, dif_pos hs]
  congr 1

theorem ofText_of_toText? {b : Bytes} {s : String} (h : toText? b = some s) : ofText s = b := by
  simp only [toText?, String.fromUTF8?] at h
  split at h
  · obtain rfl := Option.some.inj h
    simp [ofText, String.fromUTF8]
  · cases h

/-- Whether a byte goes on with a character of several bytes. -/
def isContinuation (b : UInt8) : Bool := 0x80 ≤ b && b < 0xC0

/-- The number of bytes of the UTF-8 character at the front, if there is one. -/
def charLength? : Bytes → Option Nat
  | [] => none
  | a :: rest =>
    if a < 0x80 then some 1
    else
      match rest with
      | b :: rest =>
        if 0xC2 ≤ a ∧ a < 0xE0 then (if isContinuation b then some 2 else none)
        else
          match rest with
          | c :: rest =>
            if 0xE0 ≤ a ∧ a < 0xF0 then
              -- no longer forms than needed, and no surrogates
              if isContinuation b ∧ isContinuation c ∧ (a = 0xE0 → 0xA0 ≤ b)
                ∧ (a = 0xED → b < 0xA0) then some 3 else none
            else
              match rest with
              | d :: _ =>
                if 0xF0 ≤ a ∧ a < 0xF5 ∧ isContinuation b ∧ isContinuation c ∧ isContinuation d
                  ∧ (a = 0xF0 → 0x90 ≤ b) ∧ (a = 0xF4 → b < 0x90) then some 4 else none
              | [] => none
          | [] => none
      | [] => none

/-- The bytes from the first one on that starts no UTF-8 character. -/
def dropText : Bytes → Bytes
  | [] => []
  | a :: rest =>
    match charLength? (a :: rest) with
    | some (n + 1) => dropText (rest.drop n)
    | _ => a :: rest
termination_by b => b.length
decreasing_by simp only [List.length_drop, List.length_cons]; omega

/-! ## Numbers -/

/-- `n` in `k` bytes, the most significant first. What does not fit is dropped. -/
def ofNatBE : (k n : Nat) → Bytes
  | 0, _ => []
  | k + 1, n => ofNatBE k (n / 256) ++ [UInt8.ofNat (n % 256)]

/-- The number that the bytes spell, the most significant first. -/
def toNatBE (b : Bytes) : Nat := b.foldl (fun n x => n * 256 + x.toNat) 0

/-- `n` in `k` bytes, the least significant first. What does not fit is dropped. -/
def ofNatLE : (k n : Nat) → Bytes
  | 0, _ => []
  | k + 1, n => UInt8.ofNat (n % 256) :: ofNatLE k (n / 256)

/-- The number that the bytes spell, the least significant first. -/
def toNatLE : Bytes → Nat
  | [] => 0
  | x :: rest => x.toNat + 256 * toNatLE rest

@[simp]
theorem length_ofNatBE (k n : Nat) : (ofNatBE k n).length = k := by
  induction k generalizing n with
  | zero => rfl
  | succ k ih => simp [ofNatBE, ih]

theorem toNatBE_append_singleton (b : Bytes) (x : UInt8) :
    toNatBE (b ++ [x]) = toNatBE b * 256 + x.toNat := by
  simp [toNatBE]

theorem toNatBE_ofNatBE {k n : Nat} (h : n < Nat.pow 256 k) : toNatBE (ofNatBE k n) = n := by
  induction k generalizing n with
  | zero => simp at h; subst h; rfl
  | succ k ih =>
    have hdiv : n / 256 < Nat.pow 256 k :=
      Nat.div_lt_of_lt_mul (by rw [Nat.mul_comm]; exact h)
    rw [ofNatBE, toNatBE_append_singleton, ih hdiv]
    simp only [UInt8.toNat_ofNat']
    omega

/-- The lower-case hexadecimal text of a number, after `0x`. -/
def hexText (n : Nat) : String := "0x" ++ String.ofList (Nat.toDigits 16 n)

end Bytes

end WireCall
