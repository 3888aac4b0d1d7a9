import WireCall.Bytes

/-!
# Numbers of varying length

The compact encoding writes a number seven bits at a time, the lowest first; every byte but the
last has its high bit set. A signed number is folded first, so that numbers near zero of either
sign stay short. Padding with zero groups is accepted up to the longest form of the width.

`Varint.read_encode` and `ZigZag.unfold_fold` say that reading gives back what was written.
-/

namespace WireCall

namespace Varint

/-- Why no number can be read. -/
inductive Error where
  /-- the input ends inside the number -/
  | endOfInput
  /-- the number does not end within its longest form, or does not fit its width -/
  | unterminated
  deriving DecidableEq, Repr

/-- The bytes of a number, seven bits in each. -/
def encode (n : Nat) : Bytes :=
  if n < 128 then [UInt8.ofNat n] else UInt8.ofNat (n % 128 + 128) :: encode (n / 128)

/-- The most bytes that a number of the given width in bits can take. -/
def maxLength (bits : Nat) : Nat := (bits + 6) / 7

/-- Reads groups of seven bits, at most `k` of them. -/
def readGroups : (k : Nat) → Bytes → Except Error (Nat × Bytes)
  | 0, _ => .error .unterminated
  | _ + 1, [] => .error .endOfInput
  | k + 1, b :: rest =>
    if b < 128 then .ok (b.toNat, rest)
    else
      match readGroups k rest with
      | .error e => .error e
      | .ok (high, rest) => .ok (b.toNat % 128 + 128 * high, rest)

/-- Reads a number of at most `bits` bits from the front. -/
def read (bits : Nat) (b : Bytes) : Except Error (Nat × Bytes) :=
  match readGroups (maxLength bits) b with
  | .error e => .error e
  | .ok (n, rest) => if n < Nat.pow 2 bits then .ok (n, rest) else .error .unterminated

theorem readGroups_encode {k n : Nat} (h : n < Nat.pow 128 k) (hk : 0 < k) (rest : Bytes) :
    readGroups k (encode n ++ rest) = .ok (n, rest) := by
  induction k generalizing n with
  | zero => omega
  | succ k ih =>
    rw [encode]
    by_cases hn : n < 128
    · have hb : UInt8.ofNat n < 128 := by
        rw [UInt8.lt_iff_toNat_lt, UInt8.toNat_ofNat']
        simp
        omega
      simp only [hn, if_true, List.cons_append, List.nil_append, readGroups, hb]
      simp only [UInt8.toNat_ofNat']
      congr 2
      omega
    · have hb : ¬ UInt8.ofNat (n % 128 + 128) < 128 := by
        rw [UInt8.lt_iff_toNat_lt, UInt8.toNat_ofNat']
        simp
        omega
      have hdiv : n / 128 < Nat.pow 128 k :=
        Nat.div_lt_of_lt_mul (by rw [Nat.mul_comm]; exact h)
      have hk' : 0 < k := by
        rcases Nat.eq_zero_or_pos k with rfl | hk'
        · simp at h; omega
        · exact hk'
      simp only [hn, if_false, List.cons_append, readGroups, hb, ih hdiv hk']
      simp only [UInt8.toNat_ofNat']
      congr 2
      omega

/-- Reading gives back every number that fits the width. -/
theorem read_encode {bits n : Nat} (h : n < Nat.pow 2 bits) (hbits : 0 < bits) (rest : Bytes) :
    read bits (encode n ++ rest) = .ok (n, rest) := by
  have hk : 0 < maxLength bits := by unfold maxLength; omega
  have hpow : Nat.pow 2 bits ≤ Nat.pow 128 (maxLength bits) := by
    rw [Nat.pow_eq, Nat.pow_eq, show (128 : Nat) = 2 ^ 7 from rfl, ← Nat.pow_mul]
    exact Nat.pow_le_pow_right (by omega) (by unfold maxLength; omega)
  rw [read, readGroups_encode (Nat.lt_of_lt_of_le h hpow) hk]
  exact if_pos h

/-- Each byte of a number holds seven bits of it. -/
theorem length_encode_le {k n : Nat} (h : n < Nat.pow 128 k) (hk : 0 < k) :
    (encode n).length ≤ k := by
  induction k generalizing n with
  | zero => omega
  | succ k ih =>
    rw [encode]
    split
    · exact Nat.succ_le_succ (Nat.zero_le k)
    · have hdiv : n / 128 < Nat.pow 128 k :=
        Nat.div_lt_of_lt_mul (by rw [Nat.mul_comm]; exact h)
      have hk' : 0 < k := by
        rcases Nat.eq_zero_or_pos k with rfl | hk'
        · simp at h; omega
        · exact hk'
      exact Nat.succ_le_succ (ih hdiv hk')

end Varint

namespace ZigZag

/-- Folds the signed numbers onto the natural ones: `0, -1, 1, -2, …` become `0, 1, 2, 3, …`. -/
def fold (i : Int) : Nat :=
  if i < 0 then (-2 * i - 1).toNat else (2 * i).toNat

/-- The signed number that a natural one stands for. -/
def unfold (n : Nat) : Int :=
  if n % 2 = 0 then (n / 2 : Nat) else -((n / 2 : Nat) : Int) - 1

theorem unfold_fold (i : Int) : unfold (fold i) = i := by
  unfold fold unfold
  split <;> split <;> omega

theorem fold_lt {n : Nat} {i : Int} (lower : -(n : Int) ≤ i) (upper : i < n) : fold i < 2 * n := by
  unfold fold
  split <;> omega

end ZigZag

end WireCall
