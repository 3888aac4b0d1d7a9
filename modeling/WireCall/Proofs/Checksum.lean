import Mathlib.Data.Nat.Bitwise
import Mathlib.Logic.Function.Iterate
import WireCall.Checksum
import WireCall.Proofs.Bytes

/-!
# The checksum tells bursts apart

A shift of the register is linear in exclusive or (`Checksum.shift_xor`) and loses nothing
(`Checksum.shift_injective`), as its highest bit shows whether the generator was subtracted. So two
registers that differ stay different while the same bytes are absorbed. Up to four bytes fill the
register from its low end: absorbing them is adding their word to the register and shifting it
(`Checksum.foldl_absorb`), by which different bytes make different registers. Bytes that differ in a
burst of at most four, behind the same and in front of the same, so have different checksums
(`Checksum.crc32c_ne_of_burst`).
-/

namespace WireCall

namespace Checksum

/-! ## One shift -/

theorem low_eq_zero (r : UInt32) : r &&& 1 = 0 ↔ r.toNat % 2 = 0 := by
  rw [← UInt32.toNat_inj, UInt32.toNat_and]
  exact (Nat.and_one_is_mod r.toNat).congr_left

theorem shift_of_even {r : UInt32} (h : r.toNat % 2 = 0) : shift r = r >>> 1 :=
  if_pos ((low_eq_zero r).mpr h)

theorem shift_of_odd {r : UInt32} (h : r.toNat % 2 = 1) : shift r = (r >>> 1) ^^^ generator :=
  if_neg fun hlow => by
    rw [low_eq_zero] at hlow
    omega

theorem toNat_halved (r : UInt32) : (r >>> 1).toNat = r.toNat / 2 := by
  rw [UInt32.toNat_shiftRight, Nat.shiftRight_eq_div_pow]
  rfl

/-- **A shift is linear.** -/
theorem shift_xor (a b : UInt32) : shift (a ^^^ b) = shift a ^^^ shift b := by
  have hparity : (a ^^^ b).toNat % 2 = (a.toNat + b.toNat) % 2 := by
    rw [UInt32.toNat_xor, Nat.xor_mod_two_eq]
  rcases Nat.mod_two_eq_zero_or_one a.toNat with ha | ha <;>
    rcases Nat.mod_two_eq_zero_or_one b.toNat with hb | hb
  · rw [shift_of_even ha, shift_of_even hb, shift_of_even (by omega), UInt32.shiftRight_xor]
  · rw [shift_of_even ha, shift_of_odd hb, shift_of_odd (by omega), UInt32.shiftRight_xor]
    ac_rfl
  · rw [shift_of_odd ha, shift_of_even hb, shift_of_odd (by omega), UInt32.shiftRight_xor]
    ac_rfl
  · -- the generator is subtracted twice, or not at all
    have htwice : ∀ x y : UInt32, (x ^^^ generator) ^^^ (y ^^^ generator) = x ^^^ y := by
      intro x y
      calc (x ^^^ generator) ^^^ (y ^^^ generator)
          = (x ^^^ y) ^^^ (generator ^^^ generator) := by ac_rfl
        _ = x ^^^ y := by rw [UInt32.xor_self, UInt32.xor_zero]
    rw [shift_of_odd ha, shift_of_odd hb, shift_of_even (by omega), UInt32.shiftRight_xor, htwice]

theorem eq_zero_of_shift {r : UInt32} (h : shift r = 0) : r = 0 := by
  have hlt := r.toNat_lt
  rw [← UInt32.toNat_inj]
  rcases Nat.mod_two_eq_zero_or_one r.toNat with hr | hr
  · rw [shift_of_even hr, ← UInt32.toNat_inj, toNat_halved] at h
    have hhalf : r.toNat / 2 = 0 := h
    have : (0 : UInt32).toNat = 0 := rfl
    omega
  · -- half of the register is below its highest bit, which the generator has
    rw [shift_of_odd hr, UInt32.xor_eq_zero_iff, ← UInt32.toNat_inj, toNat_halved] at h
    have hhalf : r.toNat / 2 = 0x82F63B78 := h
    omega

/-- **A shift loses nothing.** -/
theorem shift_injective : Function.Injective shift := by
  intro a b h
  refine UInt32.xor_eq_zero_iff.mp (eq_zero_of_shift ?_)
  rw [shift_xor, h, UInt32.xor_self]

theorem iterate_shift_xor (n : Nat) (a b : UInt32) :
    shift^[n] (a ^^^ b) = shift^[n] a ^^^ shift^[n] b := by
  induction n generalizing a b with
  | zero => rfl
  | succ n ih => rw [Function.iterate_succ_apply, shift_xor, ih, ← Function.iterate_succ_apply,
      ← Function.iterate_succ_apply]

/-- What is free at the low end moves down. -/
theorem iterate_shift_mul (k n : Nat) (h : n * Nat.pow 2 k < UInt32.size) :
    shift^[k] (UInt32.ofNat (n * Nat.pow 2 k)) = UInt32.ofNat n := by
  induction k with
  | zero => exact congrArg UInt32.ofNat (Nat.mul_one n)
  | succ k ih =>
    have hdouble : n * Nat.pow 2 (k + 1) = 2 * (n * Nat.pow 2 k) :=
      (Nat.mul_assoc n (Nat.pow 2 k) 2).symm.trans (Nat.mul_comm _ 2)
    have hlt : n * Nat.pow 2 k < UInt32.size := by omega
    have hnat : (UInt32.ofNat (n * Nat.pow 2 (k + 1))).toNat = n * Nat.pow 2 (k + 1) :=
      UInt32.toNat_ofNat_of_lt' h
    have hhalf : UInt32.ofNat (n * Nat.pow 2 (k + 1)) >>> 1 = UInt32.ofNat (n * Nat.pow 2 k) := by
      rw [← UInt32.toNat_inj, toNat_halved, hnat, UInt32.toNat_ofNat_of_lt' hlt]
      omega
    rw [Function.iterate_succ_apply, shift_of_even (by omega), hhalf, ih hlt]

/-! ## Absorbing bytes -/

theorem absorb_eq (r : UInt32) (b : UInt8) : absorb r b = shift^[8] (r ^^^ b.toUInt32) := rfl

/-- Registers that differ do so still when the same bytes have been absorbed. -/
theorem foldl_absorb_injective (b : Bytes) : Function.Injective fun r => b.foldl absorb r := by
  induction b with
  | nil => exact fun _ _ h => h
  | cons x rest ih =>
    intro r s h
    have hfirst : absorb r x = absorb s x := ih h
    rw [absorb_eq, absorb_eq] at hfirst
    exact (UInt32.xor_left_inj x.toUInt32).mp (shift_injective.iterate 8 hfirst)

/-- The word that some bytes spell, the first one at its low end. -/
def word (b : Bytes) : UInt32 := UInt32.ofNat (Bytes.toNatLE b)

theorem toNatLE_lt_size {b : Bytes} (h : b.length ≤ 4) : Bytes.toNatLE b < UInt32.size :=
  Nat.lt_of_lt_of_le (Bytes.toNatLE_lt b) (Nat.pow_le_pow_right (n := 256) (by decide) h)

theorem toNatLE_mul_lt_size {b : Bytes} (h : b.length ≤ 3) :
    Bytes.toNatLE b * 256 < UInt32.size := by
  have hb : Bytes.toNatLE b < Nat.pow 256 3 :=
    Nat.lt_of_lt_of_le (Bytes.toNatLE_lt b) (Nat.pow_le_pow_right (n := 256) (by decide) h)
  exact Nat.mul_lt_mul_of_pos_right hb (by decide)

theorem eq_of_word_eq {a b : Bytes} (hlength : a.length = b.length) (hfour : b.length ≤ 4)
    (h : word a = word b) : a = b := by
  have hnat : Bytes.toNatLE a = Bytes.toNatLE b := by
    rw [word, word, ← UInt32.toNat_inj, UInt32.toNat_ofNat_of_lt' (toNatLE_lt_size hfour),
      UInt32.toNat_ofNat_of_lt' (toNatLE_lt_size (hlength ▸ hfour))] at h
    exact h
  rw [← Bytes.ofNatLE_toNatLE hlength, hnat, Bytes.ofNatLE_toNatLE rfl]

/-- A byte and a number without its low byte have no bits in common. -/
theorem xor_mul_256 (x m : Nat) (hx : x < 256) : x ^^^ m * 256 = x + 256 * m := by
  have hlow : (x ^^^ m * 256) % 256 = x := by
    have := Nat.xor_mod_two_pow (a := x) (b := m * 256) (n := 8)
    simpa [Nat.mod_eq_of_lt hx] using this
  have hhigh : (x ^^^ m * 256) / 256 = m := by
    have := Nat.xor_div_two_pow (a := x) (b := m * 256) (n := 8)
    simpa [Nat.div_eq_of_lt hx] using this
  omega

theorem word_cons {x : UInt8} {rest : Bytes} (h : rest.length ≤ 3) :
    word (x :: rest) = x.toUInt32 ^^^ UInt32.ofNat (Bytes.toNatLE rest * 256) := by
  have hhigh := toNatLE_mul_lt_size h
  have hword : Bytes.toNatLE (x :: rest) < UInt32.size := toNatLE_lt_size (Nat.succ_le_succ h)
  rw [← UInt32.toNat_inj, UInt32.toNat_xor, word, UInt32.toNat_ofNat_of_lt' hword,
    UInt32.toNat_ofNat_of_lt' hhigh, UInt8.toNat_toUInt32, xor_mul_256 _ _ x.toNat_lt]
  rfl

/-- **Absorbing up to four bytes** is adding their word to the register and shifting it. -/
theorem foldl_absorb {b : Bytes} (h : b.length ≤ 4) (r : UInt32) :
    b.foldl absorb r = shift^[8 * b.length] (r ^^^ word b) := by
  induction b generalizing r with
  | nil => exact (UInt32.xor_zero (a := r)).symm
  | cons x rest ih =>
    have hthree : rest.length ≤ 3 := Nat.le_of_succ_le_succ h
    -- the other bytes have not been reached before the first one has been shifted out
    have hword : shift^[8] (UInt32.ofNat (Bytes.toNatLE rest * 256)) = word rest :=
      iterate_shift_mul 8 (Bytes.toNatLE rest) (toNatLE_mul_lt_size hthree)
    calc (x :: rest).foldl absorb r
        = shift^[8 * rest.length] (absorb r x ^^^ word rest) := ih (Nat.le_of_succ_le h) _
      _ = shift^[8 * rest.length] (shift^[8] (r ^^^ word (x :: rest))) := by
          rw [absorb_eq, ← hword, ← iterate_shift_xor, word_cons hthree, UInt32.xor_assoc]
      _ = shift^[8 * (x :: rest).length] (r ^^^ word (x :: rest)) :=
          (Function.iterate_add_apply shift _ _ _).symm

/-! ## Checksums -/

/-- A checksum that is continued is that of all bytes. -/
theorem continued_crc32c (a b : Bytes) : continued (crc32c a) b = crc32c (a ++ b) := by
  rw [continued, crc32c, UInt32.xor_assoc, UInt32.xor_self, UInt32.xor_zero, crc32c,
    List.foldl_append]

/-- **Bytes that differ in a burst of at most four have different checksums.** -/
theorem crc32c_ne_of_burst {front old new back : Bytes} (hlength : new.length = old.length)
    (hfour : old.length ≤ 4) (hne : new ≠ old) :
    crc32c (front ++ (new ++ back)) ≠ crc32c (front ++ (old ++ back)) := by
  intro h
  apply hne
  rw [crc32c, crc32c, UInt32.xor_left_inj, List.foldl_append, List.foldl_append,
    List.foldl_append, List.foldl_append] at h
  have hburst := foldl_absorb_injective back h
  rw [foldl_absorb hfour, foldl_absorb (hlength ▸ hfour), hlength] at hburst
  have hregister := shift_injective.iterate _ hburst
  exact eq_of_word_eq hlength hfour ((UInt32.xor_right_inj _).mp hregister)

/-- The check value of the polynomial, the checksum of the digits from 1 to 9. -/
example : crc32c (Bytes.ofText "123456789") = 0xE3069283 := by decide +kernel

end Checksum

end WireCall
