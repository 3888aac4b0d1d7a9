import Mathlib.Data.List.Perm.Basic
import WireCall.Client

/-!
# The table of pending calls

The table holds each pending call under its number. As long as no number occurs twice, taking a
number out removes exactly the one entry that looking it up finds (`Client.perm_without`).
-/

namespace WireCall

namespace Client

variable {table : List (UInt64 × Nat)} {seq : UInt64} {n : Nat}

@[simp]
theorem mem_without {p : UInt64 × Nat} :
    p ∈ without table seq ↔ p ∈ table ∧ p.1 ≠ seq := by
  simp [without]

theorem without_sublist : (without table seq).Sublist table := List.filter_sublist

theorem without_eq_self (h : ∀ p ∈ table, p.1 ≠ seq) : without table seq = table :=
  List.filter_eq_self.mpr fun p hp => decide_eq_true (h p hp)

/-- The one entry under a number, and all the others. -/
theorem perm_without (hkeys : (table.map Prod.fst).Nodup) (h : (seq, n) ∈ table) :
    table.Perm ((seq, n) :: without table seq) := by
  induction table with
  | nil => cases h
  | cons p rest ih =>
    obtain ⟨hp, hrest⟩ := List.nodup_cons.mp hkeys
    rcases List.mem_cons.mp h with rfl | h
    · have hself : without rest seq = rest := by
        refine without_eq_self fun q hq heq => hp ?_
        exact List.mem_map.mpr ⟨q, hq, heq⟩
      have : without ((seq, n) :: rest) seq = rest := by
        rw [← hself]
        simp [without]
      rw [this]
    · have hne : p.1 ≠ seq := by
        intro heq
        exact hp (List.mem_map.mpr ⟨(seq, n), h, heq.symm⟩)
      have : without (p :: rest) seq = p :: without rest seq :=
        List.filter_cons_of_pos (decide_eq_true hne)
      rw [this]
      exact ((ih hrest h).cons p).trans (List.Perm.swap _ _ _)

variable {c : Client}

/-- Looking a number up finds an entry under it. -/
theorem mem_of_pending? (h : c.pending? seq = some n) : (seq, n) ∈ c.pending := by
  simp only [pending?, Option.map_eq_some_iff] at h
  obtain ⟨p, hp, rfl⟩ := h
  have hseq : p.1 = seq := by simpa using List.find?_some hp
  rw [← hseq]
  exact List.mem_of_find?_eq_some hp

theorem pending?_eq_none : c.pending? seq = none ↔ ∀ p ∈ c.pending, p.1 ≠ seq := by
  simp [pending?]

/-- An entry is found under its number, if no number occurs twice. -/
theorem pending?_of_mem (hkeys : (c.pending.map Prod.fst).Nodup) (h : (seq, n) ∈ c.pending) :
    c.pending? seq = some n := by
  cases hfind : c.pending? seq with
  | none => exact absurd rfl (pending?_eq_none.mp hfind _ h)
  | some m =>
    have hm := mem_of_pending? hfind
    rcases List.mem_cons.mp ((perm_without hkeys h).mem_iff.mp hm) with heq | hm
    · rw [(Prod.mk.inj heq).2]
    · exact absurd rfl (mem_without.mp hm).2

end Client

end WireCall
