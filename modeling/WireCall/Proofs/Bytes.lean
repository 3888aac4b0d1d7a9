import Mathlib.Data.List.Induction
import WireCall.Bytes

/-!
# Numbers and the bytes that spell them

A number in some bytes is below the power of 256 for their count, and written in as many bytes it
gives the same ones again (`Bytes.ofNatBE_toNatBE`, `Bytes.ofNatLE_toNatLE`). With the lemmas beside
the definitions, bytes of one length and the numbers that fit into them stand for each other.
-/

namespace WireCall

namespace Bytes

theorem toNatBE_lt (b : Bytes) : toNatBE b < Nat.pow 256 b.length := by
  induction b using List.reverseRecOn with
  | nil => exact Nat.one_pos
  | append_singleton b x ih =>
    have hx := x.toNat_lt
    have hpow : Nat.pow 256 (b ++ [x]).length = Nat.pow 256 b.length * 256 := by
      rw [List.length_append]
      rfl
    rw [toNatBE_append_singleton, hpow]
    omega

theorem ofNatBE_toNatBE {k : Nat} {b : Bytes} (h : b.length = k) : ofNatBE k (toNatBE b) = b := by
  induction b using List.reverseRecOn generalizing k with
  | nil =>
    subst h
    rfl
  | append_singleton b x ih =>
    obtain rfl : k = b.length + 1 := by simpa using h.symm
    have hx := x.toNat_lt
    have hfront : (toNatBE b * 256 + x.toNat) / 256 = toNatBE b := by omega
    have hlast : (toNatBE b * 256 + x.toNat) % 256 = x.toNat := by omega
    rw [toNatBE_append_singleton, ofNatBE, hfront, hlast, ih rfl, UInt8.ofNat_toNat]

theorem toNatLE_lt (b : Bytes) : toNatLE b < Nat.pow 256 b.length := by
  induction b with
  | nil => exact Nat.one_pos
  | cons x rest ih =>
    have hx := x.toNat_lt
    have hpow : Nat.pow 256 (x :: rest).length = Nat.pow 256 rest.length * 256 := rfl
    rw [toNatLE, hpow]
    omega

theorem ofNatLE_toNatLE {k : Nat} {b : Bytes} (h : b.length = k) : ofNatLE k (toNatLE b) = b := by
  induction b generalizing k with
  | nil =>
    subst h
    rfl
  | cons x rest ih =>
    obtain rfl : k = rest.length + 1 := h.symm
    have hx := x.toNat_lt
    have hfirst : (x.toNat + 256 * toNatLE rest) % 256 = x.toNat := by omega
    have hrest : (x.toNat + 256 * toNatLE rest) / 256 = toNatLE rest := by omega
    rw [toNatLE, ofNatLE, hfirst, hrest, ih rfl, UInt8.ofNat_toNat]

end Bytes

end WireCall
