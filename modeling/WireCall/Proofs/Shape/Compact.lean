import WireCall.Proofs.Results
import WireCall.Shape.Compact

/-!
# Values read back from their compact bytes

A value *reads back* (`Compact.ReadsBack`) if the reader of its shape takes it from the front of
bytes that start with what was written, and leaves what follows. Numbers and truth values do so,
texts do whose length is a number of 64 bits, and what is put together of other values does if these
do and there are not too many of them.
-/

namespace WireCall

namespace Compact

/-! ## Readers in a row -/

variable {α β : Type}

theorem bind_ok {x : Read α} {f : α → Read β} {s t : Bytes} {a : α} (h : x s = .ok (a, t)) :
    (x >>= f) s = f a t := by
  simp only [bind, StateT.bind, h, Except.bind]

theorem readVarint_encode {bits n : Nat} (h : n < Nat.pow 2 bits) (hbits : 0 < bits)
    (rest : Bytes) : readVarint bits (Varint.encode n ++ rest) = .ok (n, rest) := by
  simp only [readVarint, Varint.read_encode h hbits]

theorem readBytes_append (b rest : Bytes) : readBytes b.length (b ++ rest) = .ok (b, rest) := by
  simp [readBytes]

/-! ## Single values -/

/-- **A value reads back** from its bytes, whatever follows them. -/
def ReadsBack (s : Shape) (v : s.Value) : Prop :=
  ∀ b, write s v = .ok b → ∀ rest, read s (b ++ rest) = .ok (v, rest)

theorem readText_writeText {t : String} (h : (Bytes.ofText t).length < Nat.pow 2 64)
    (rest : Bytes) : readText (writeText t ++ rest) = .ok (t, rest) := by
  rw [readText, writeText, counted, List.append_assoc, readLength,
    bind_ok (readVarint_encode h (by decide) _), bind_ok (readBytes_append _ _),
    Bytes.toText?_ofText]
  rfl

/-- A folded integer fits the width of the integer. -/
theorem fold_toInt_lt {w : Width} (x : BitVec w.bits) :
    ZigZag.fold x.toInt < Nat.pow 2 w.bits := by
  have hlow := BitVec.le_toInt x
  have hhigh := BitVec.toInt_lt (x := x)
  have hfold := ZigZag.fold_lt (n := 2 ^ (w.bits - 1)) (i := x.toInt) (by simpa using hlow)
    (by simpa using hhigh)
  have hpow : 2 * 2 ^ (w.bits - 1) = Nat.pow 2 w.bits := by cases w <;> rfl
  omega

namespace ReadsBack

theorem unit : ReadsBack .unit () := by
  intro b hb rest
  obtain rfl : [] = b := Except.ok.inj hb
  rfl

theorem bool (x : Bool) : ReadsBack .bool x := by
  intro b hb rest
  obtain rfl : [if x then 1 else 0] = b := Except.ok.inj hb
  cases x <;> rfl

theorem text {t : String} (h : (Bytes.ofText t).length < Nat.pow 2 64) : ReadsBack .text t := by
  intro b hb rest
  obtain rfl : writeText t = b := Except.ok.inj hb
  exact readText_writeText h rest

theorem natural {w : Width} (x : BitVec w.bits) : ReadsBack (.natural w) x := by
  intro b hb rest
  obtain rfl : writeNatural w x = b := Except.ok.inj hb
  -- one byte is written as it is, more of them as a varint
  cases w with
  | w8 =>
    have hx : BitVec.ofNat Width.w8.bits (UInt8.ofNat x.toNat).toNat = x := by
      rw [UInt8.toNat_ofNat_of_lt' x.isLt, BitVec.ofNat_toNat, BitVec.setWidth_eq]
    exact congrArg (fun x => Except.ok (x, rest)) hx
  | w16 | w32 | w64 =>
    refine (bind_ok (readVarint_encode x.isLt (by decide) rest)).trans ?_
    rw [BitVec.ofNat_toNat, BitVec.setWidth_eq]
    rfl

theorem integer {w : Width} (x : BitVec w.bits) : ReadsBack (.integer w) x := by
  intro b hb rest
  obtain rfl : writeInteger w x = b := Except.ok.inj hb
  have hunfold : BitVec.ofInt w.bits (ZigZag.unfold (ZigZag.fold x.toInt)) = x := by
    rw [ZigZag.unfold_fold, BitVec.ofInt_toInt]
  have hfits := fold_toInt_lt x
  cases w with
  | w8 =>
    have hx : BitVec.ofNat Width.w8.bits (UInt8.ofNat x.toNat).toNat = x := by
      rw [UInt8.toNat_ofNat_of_lt' x.isLt, BitVec.ofNat_toNat, BitVec.setWidth_eq]
    exact congrArg (fun x => Except.ok (x, rest)) hx
  | w16 | w32 | w64 =>
    refine (bind_ok (readVarint_encode hfits (by decide) rest)).trans ?_
    exact congrArg (fun x => Except.ok (x, rest)) hunfold

theorem choice {first : String} {more : List String} (hfew : more.length < Nat.pow 2 32)
    (i : Fin (more.length + 1)) : ReadsBack (.choice first more) i := by
  intro b hb rest
  obtain rfl : Varint.encode i.val = b := Except.ok.inj hb
  have hi : i.val < Nat.pow 2 32 := Nat.lt_of_le_of_lt (Nat.le_of_lt_succ i.isLt) hfew
  refine (bind_ok (readVarint_encode hi (by decide) rest)).trans ?_
  rw [dif_pos i.isLt]
  rfl

/-! ## Values put together -/

theorem optional {s : Shape} {o : Option s.Value} (h : ∀ a ∈ o, ReadsBack s a) :
    ReadsBack (.optional s) o := by
  intro b hb rest
  cases o with
  | none =>
    obtain rfl : [0] = b := Except.ok.inj hb
    rfl
  | some a =>
    obtain ⟨inner, hinner, hb⟩ := bind_eq_ok.mp hb
    obtain rfl : 1 :: inner = b := Except.ok.inj hb
    change (read s >>= fun a => pure (some a)) (inner ++ rest) = _
    rw [bind_ok (h a rfl inner hinner rest)]
    rfl

theorem pair {s t : Shape} {v : s.Value × t.Value} (hfirst : ReadsBack s v.1)
    (hsecond : ReadsBack t v.2) : ReadsBack (.pair s t) v := by
  intro b hb rest
  obtain ⟨first, hx, hb⟩ := bind_eq_ok.mp hb
  obtain ⟨second, hy, hb⟩ := bind_eq_ok.mp hb
  obtain rfl : first ++ second = b := Except.ok.inj hb
  rw [List.append_assoc]
  exact (bind_ok (hfirst first hx _)).trans (bind_ok (hsecond second hy _))

end ReadsBack

/-- Values one after another are read back, if each of them is. -/
theorem readMany_flatten {item : Read α} {l : List α} {parts : List Bytes}
    (h : List.Forall₂ (fun a b => ∀ rest, item (b ++ rest) = .ok (a, rest)) l parts)
    (acc : List α) (rest : Bytes) :
    readMany item l.length acc (parts.flatten ++ rest) = .ok (acc.reverse ++ l, rest) := by
  induction h generalizing acc with
  | nil =>
    rw [List.append_nil]
    rfl
  | cons hitem _ ih =>
    rw [List.flatten_cons, List.append_assoc, List.length_cons, readMany, bind_ok (hitem _), ih,
      List.reverse_cons, List.append_assoc]
    rfl

namespace ReadsBack

theorem sequence {s : Shape} {l : List s.Value} (hfew : l.length < Nat.pow 2 64)
    (h : ∀ a ∈ l, ReadsBack s a) : ReadsBack (.sequence s) l := by
  intro b hb rest
  obtain ⟨parts, hparts, hb⟩ := bind_eq_ok.mp hb
  obtain rfl : counted l.length parts.flatten = b := Except.ok.inj hb
  have hitems : List.Forall₂ (fun a b => ∀ rest, read s (b ++ rest) = .ok (a, rest)) l parts := by
    refine ((List.forall₂_and_left ..).mpr ⟨h, forall₂_of_mapM hparts⟩).imp ?_
    rintro a b ⟨hback, hwrite⟩
    exact hback b hwrite
  rw [counted, List.append_assoc]
  refine (bind_ok (readVarint_encode hfew (by decide) _)).trans ?_
  rw [readMany_flatten hitems]
  rfl

theorem mapping {s : Shape} {m : Mapping s.Value} (hfew : m.entries.length < Nat.pow 2 64)
    (hkeys : ∀ p ∈ m.entries, (Bytes.ofText p.1).length < Nat.pow 2 64)
    (h : ∀ p ∈ m.entries, ReadsBack s p.2) : ReadsBack (.mapping s) m := by
  intro b hb rest
  obtain ⟨parts, hparts, hb⟩ := bind_eq_ok.mp hb
  obtain rfl : counted m.entries.length parts.flatten = b := Except.ok.inj hb
  have hitems : List.Forall₂
      (fun p b => ∀ rest, readEntry (read s) (b ++ rest) = .ok (p, rest)) m.entries parts := by
    refine ((List.forall₂_and_left ..).mpr
      ⟨fun p hp => And.intro (hkeys p hp) (h p hp), forall₂_of_mapM hparts⟩).imp ?_
    rintro p b ⟨⟨hkey, hback⟩, hentry⟩ rest
    obtain ⟨inner, hinner, hentry⟩ := bind_eq_ok.mp hentry
    obtain rfl : writeText p.1 ++ inner = b := Except.ok.inj hentry
    rw [readEntry, List.append_assoc, bind_ok (readText_writeText hkey _),
      bind_ok (hback inner hinner _)]
    rfl
  rw [counted, List.append_assoc]
  refine (bind_ok (readVarint_encode hfew (by decide) _)).trans ?_
  rw [bind_ok (readMany_flatten hitems [] _), List.reverse_nil, List.nil_append,
    Mapping.ofList_entries]
  rfl

end ReadsBack

/-! ## Records -/

/-- All values of the fields read back. -/
def FieldsReadBack : (fs : Fields) → fs.Value → Prop
  | .done, _ => True
  | .field _ _ s more, (v : s.Value × more.Value) => ReadsBack s v.1 ∧ FieldsReadBack more v.2

theorem readFields_writeFields {fs : Fields} {v : fs.Value} {b : Bytes}
    (hb : writeFields fs v = .ok b) (hback : FieldsReadBack fs v) (rest : Bytes) :
    readFields fs (b ++ rest) = .ok (v, rest) := by
  match fs, v with
  | .done, () =>
    obtain rfl : [] = b := Except.ok.inj hb
    rfl
  | .field _ _ s more, (x, xs) =>
    obtain ⟨hx, hxs⟩ := hback
    obtain ⟨first, hfirst, hb⟩ := bind_eq_ok.mp hb
    obtain ⟨others, hmore, hb⟩ := bind_eq_ok.mp hb
    obtain rfl : first ++ others = b := Except.ok.inj hb
    rw [List.append_assoc]
    exact (bind_ok (hx first hfirst _)).trans (bind_ok (readFields_writeFields hmore hxs rest))

/-- **A record reads back**, if its fields do. -/
theorem ReadsBack.record {name : String} {fs : Fields} {v : fs.Value}
    (hback : FieldsReadBack fs v) : ReadsBack (.record name fs) v := by
  intro b hb rest
  exact readFields_writeFields hb hback rest

/-- A value that reads back is the value of its bytes, whatever follows them. -/
theorem decode_append {s : Shape} {v : s.Value} {b : Bytes} (hb : write s v = .ok b)
    (hback : ReadsBack s v) (rest : Bytes) : decode s (b ++ rest) = .ok v := by
  simp only [decode, hback b hb rest]

theorem decode_write {s : Shape} {v : s.Value} {b : Bytes} (hb : write s v = .ok b)
    (hback : ReadsBack s v) : decode s b = .ok v := by
  have hdecode := decode_append hb hback []
  rwa [List.append_nil] at hdecode

end Compact

end WireCall
