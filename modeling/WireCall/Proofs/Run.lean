import Mathlib.Data.List.Induction

/-!
# Runs of a machine

The client, the server and the network are given by their single steps: a function that says for
each action whether it is possible now and what it leads to. A run is a list of actions that are
possible one after another. What holds at the start and is kept by every step holds after every run
(`Run.keeps`), also where it speaks about the actions so far (`Run.induct`).

A state forgets. What has to be remembered of a run is written into its *log*, to which each step
adds what it notes (`Run.log`).
-/

namespace WireCall

/-! ## Lists that a step changes -/

/-- What stands in a list that has got a new end was there before, or is the new end. -/
theorem getElem?_of_concat {α : Type} {l : List α} {x y : α} {n : Nat}
    (h : (l ++ [x])[n]? = some y) : l[n]? = some y ∨ n = l.length ∧ y = x := by
  rcases Nat.lt_or_ge n l.length with hlt | hge
  · rw [List.getElem?_append_left hlt] at h
    exact .inl h
  · have hlt := (List.getElem?_eq_some_iff.mp h).1
    rw [List.length_append, List.length_singleton] at hlt
    obtain rfl : n = l.length := by omega
    rw [List.getElem?_concat_length] at h
    exact .inr ⟨rfl, (Option.some.inj h).symm⟩

/-- What stands in a list that has changed at one place is the new one, or stands at another place.
-/
theorem getElem?_of_set {α : Type} {l : List α} {x y : α} {m n : Nat}
    (h : (l.set n x)[m]? = some y) : m = n ∧ y = x ∨ m ≠ n ∧ l[m]? = some y := by
  by_cases hmn : m = n
  · subst hmn
    have hlt := (List.getElem?_eq_some_iff.mp h).1
    rw [List.length_set] at hlt
    rw [List.getElem?_set_self hlt] at h
    exact .inl ⟨rfl, (Option.some.inj h).symm⟩
  · rw [List.getElem?_set_ne (Ne.symm hmn)] at h
    exact .inr ⟨hmn, h⟩

/-- What is read off the members of a list stays, if one of them changes in what is not read. -/
theorem map_modify_of_eq {α β : Type} {g : α → β} {f : α → α} (h : ∀ x, g (f x) = g x) (l : List α)
    (n : Nat) : (l.modify n f).map g = l.map g := by
  apply List.ext_getElem?
  intro m
  rw [List.getElem?_map, List.getElem?_map, List.getElem?_modify]
  by_cases hmn : n = m <;> cases l[m]? <;> simp [hmn, h]

/-- The number of those that count, if one member of a list is replaced. -/
theorem countP_set_add {α : Type} {p : α → Bool} {l : List α} {n : Nat} {x : α}
    (h : l[n]? = some x) (y : α) :
    (l.set n y).countP p + (p x).toNat = l.countP p + (p y).toNat := by
  obtain ⟨hlt, hget⟩ := List.getElem?_eq_some_iff.mp h
  have hle : (p x).toNat ≤ l.countP p := by
    cases hx : p x with
    | false => exact Nat.zero_le _
    | true => exact List.countP_pos_iff.mpr ⟨x, List.mem_of_getElem? h, hx⟩
  have hcount : (l.set n y).countP p =
      l.countP p - (if p x then 1 else 0) + if p y then 1 else 0 := by
    rw [List.countP_set hlt, hget]
  generalize (l.set n y).countP p = total at hcount ⊢
  generalize l.countP p = total' at hle hcount ⊢
  cases hx : p x <;> cases hy : p y <;> simp [hx, hy] at hle hcount ⊢ <;> omega

namespace Run

variable {σ α ε : Type} {step : σ → α → Option σ}

/-- The last step of a run. -/
theorem concat_eq_some {s s' : σ} {as : List α} {a : α} :
    (as ++ [a]).foldlM step s = some s' ↔
      ∃ m, as.foldlM step s = some m ∧ step m a = some s' := by
  rw [List.foldlM_append]
  cases h : as.foldlM step s with
  | none => simp
  | some m => simp

/-- The first step of a run. -/
theorem cons_eq_some {s s' : σ} {a : α} {as : List α} :
    (a :: as).foldlM step s = some s' ↔ ∃ m, step s a = some m ∧ as.foldlM step m = some s' := by
  rw [List.foldlM_cons]
  exact Option.bind_eq_some_iff

/-- A run that goes on from where another one has led. -/
theorem append_eq_some {s s' : σ} {as bs : List α} :
    (as ++ bs).foldlM step s = some s' ↔
      ∃ m, as.foldlM step s = some m ∧ bs.foldlM step m = some s' := by
  rw [List.foldlM_append]
  cases h : as.foldlM step s with
  | none => simp
  | some m => simp

/-- What each step of a run keeps, the run keeps, also where it depends on the actions so far. -/
theorem induct {P : List α → σ → Prop} {s : σ} (hinit : P [] s)
    (hstep : ∀ as m a s', as.foldlM step s = some m → P as m → step m a = some s' →
      P (as ++ [a]) s') :
    ∀ as s', as.foldlM step s = some s' → P as s' := by
  intro as
  induction as using List.reverseRecOn with
  | nil =>
    intro s' hrun
    obtain rfl := Option.some.inj hrun
    exact hinit
  | append_singleton as a ih =>
    intro s' hrun
    obtain ⟨m, hm, ha⟩ := concat_eq_some.mp hrun
    exact hstep as m a s' hm (ih m hm) ha

/-- What each step keeps, a run keeps. -/
theorem keeps {P : σ → Prop} (hstep : ∀ {s a s'}, P s → step s a = some s' → P s') {s s' : σ}
    {as : List α} (hP : P s) (hrun : as.foldlM step s = some s') : P s' :=
  induct (P := fun _ s => P s) hP (fun _ _ _ _ _ => hstep) as s' hrun

/-! ## Logs -/

/-- What the steps of a run note, one after another. -/
def log (step : σ → α → Option σ) (note : σ → α → List ε) : σ → List α → List ε
  | _, [] => []
  | s, a :: as =>
    match step s a with
    | some s' => note s a ++ log step note s' as
    | none => []

variable {note : σ → α → List ε}

@[simp]
theorem log_nil (s : σ) : log step note s [] = [] := rfl

/-- The log of a run that goes on stands behind the log so far. -/
theorem log_append {s m : σ} {as bs : List α} (hm : as.foldlM step s = some m) :
    log step note s (as ++ bs) = log step note s as ++ log step note m bs := by
  induction as generalizing s with
  | nil =>
    obtain rfl := Option.some.inj hm
    rfl
  | cons a as ih =>
    cases ha : step s a with
    | none => simp [List.foldlM_cons, ha] at hm
    | some t =>
      have hm' : as.foldlM step t = some m := by simpa [List.foldlM_cons, ha] using hm
      simp only [List.cons_append, log, ha, ih hm', List.append_assoc]

/-- The last step adds its note to the log. -/
theorem log_concat {s m s' : σ} {as : List α} {a : α} (hm : as.foldlM step s = some m)
    (ha : step m a = some s') : log step note s (as ++ [a]) = log step note s as ++ note m a := by
  rw [log_append hm]
  simp [log, ha]

/-- What is in the log was noted by one of the steps. -/
theorem mem_log {s : σ} {as : List α} {e : ε} (h : e ∈ log step note s as) :
    ∃ m, ∃ a ∈ as, e ∈ note m a := by
  induction as generalizing s with
  | nil => cases h
  | cons a as ih =>
    rw [log] at h
    split at h
    · rcases List.mem_append.mp h with h | h
      · exact ⟨s, a, List.mem_cons_self, h⟩
      · obtain ⟨m, b, hb, hm⟩ := ih h
        exact ⟨m, b, List.mem_cons_of_mem a hb, hm⟩
    · cases h

end Run

end WireCall
