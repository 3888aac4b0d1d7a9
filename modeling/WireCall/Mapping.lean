/-!
# Mappings from text

A mapping is a list of entries whose keys are texts in strictly increasing order of their
characters. Inserting an entry replaces the one with the same key. Two mappings with the same
entries are equal, inserting the entries of a mapping one after another gives the mapping back
(`Mapping.ofList_entries`), and an insertion changes what is found under its own key only
(`Mapping.get?_insert`).
-/

namespace WireCall

/-! ## Sorted entries -/

/-- Puts an entry at its place in a list sorted by key, replacing one with the same key. -/
def insertEntry {α : Type} (key : String) (a : α) : List (String × α) → List (String × α)
  | [] => [(key, a)]
  | (k, b) :: rest =>
    if key < k then (key, a) :: (k, b) :: rest
    else if key = k then (key, a) :: rest
    else (k, b) :: insertEntry key a rest

/-- The entries are sorted by key and no key occurs twice. -/
def Ascending {α : Type} (entries : List (String × α)) : Prop :=
  entries.Pairwise fun p q => p.1 < q.1

theorem mem_insertEntry {α : Type} {key : String} {a : α} {p : String × α}
    {entries : List (String × α)} (h : p ∈ insertEntry key a entries) :
    p = (key, a) ∨ p ∈ entries := by
  induction entries with
  | nil => simpa [insertEntry] using h
  | cons q rest ih =>
    obtain ⟨k, b⟩ := q
    simp only [insertEntry] at h
    split at h
    · simpa using h
    · split at h
      · rcases List.mem_cons.mp h with h | h
        · exact .inl h
        · exact .inr (List.mem_cons_of_mem _ h)
      · rcases List.mem_cons.mp h with h | h
        · exact .inr (by simp [h])
        · rcases ih h with h | h
          · exact .inl h
          · exact .inr (List.mem_cons_of_mem _ h)

theorem Ascending.insertEntry {α : Type} {key : String} {a : α} {entries : List (String × α)}
    (h : Ascending entries) : Ascending (insertEntry key a entries) := by
  induction entries with
  | nil => simp [WireCall.insertEntry, Ascending]
  | cons q rest ih =>
    obtain ⟨k, b⟩ := q
    have hrest := List.pairwise_cons.mp h
    simp only [WireCall.insertEntry]
    split
    · rename_i hlt
      refine List.pairwise_cons.mpr ⟨fun p hp => ?_, h⟩
      rcases List.mem_cons.mp hp with rfl | hp
      · exact hlt
      · exact String.lt_trans hlt (hrest.1 p hp)
    · split
      · rename_i heq
        subst heq
        exact List.pairwise_cons.mpr ⟨hrest.1, hrest.2⟩
      · rename_i hlt hne
        refine List.pairwise_cons.mpr ⟨fun p hp => ?_, ih hrest.2⟩
        rcases mem_insertEntry hp with rfl | hp
        · rcases Decidable.em (k < key) with hk | hk
          · exact hk
          · exact absurd (String.le_antisymm (String.not_lt.mp hk) (String.not_lt.mp hlt)) hne
        · exact hrest.1 p hp

theorem insertEntry_of_forall_lt {α : Type} {key : String} {a : α}
    {entries : List (String × α)} (h : ∀ p ∈ entries, p.1 < key) :
    insertEntry key a entries = entries ++ [(key, a)] := by
  induction entries with
  | nil => rfl
  | cons q rest ih =>
    obtain ⟨k, b⟩ := q
    have hk : k < key := h (k, b) (by simp)
    have hnlt : ¬ key < k := fun hlt => String.lt_irrefl _ (String.lt_trans hk hlt)
    have hne : key ≠ k := fun heq => String.lt_irrefl _ (heq ▸ hk)
    simp only [insertEntry, hnlt, hne, if_false, List.cons_append]
    rw [ih fun p hp => h p (List.mem_cons_of_mem _ hp)]

/-! ## Mappings -/

/-- A finite mapping from texts, in the order of its keys. -/
structure Mapping (α : Type) where
  entries : List (String × α)
  ascending : Ascending entries

namespace Mapping

variable {α : Type}

/-- The mapping without entries. -/
def empty : Mapping α := ⟨[], List.Pairwise.nil⟩

/-- The mapping with one entry added or replaced. -/
def insert (m : Mapping α) (key : String) (a : α) : Mapping α :=
  ⟨insertEntry key a m.entries, m.ascending.insertEntry⟩

/-- The mapping of a list of entries; of two with the same key the later one counts. -/
def ofList (entries : List (String × α)) : Mapping α :=
  entries.foldl (fun m p => m.insert p.1 p.2) empty

@[ext]
theorem ext {m n : Mapping α} (h : m.entries = n.entries) : m = n := by
  obtain ⟨e, he⟩ := m
  obtain ⟨f, hf⟩ := n
  obtain rfl : e = f := h
  rfl

theorem entries_foldl_insert (l : List (String × α)) (m : Mapping α)
    (h : Ascending (m.entries ++ l)) :
    (l.foldl (fun m p => m.insert p.1 p.2) m).entries = m.entries ++ l := by
  induction l generalizing m with
  | nil => simp
  | cons p l ih =>
    have hp : ∀ q ∈ m.entries, q.1 < p.1 := fun q hq =>
      (List.pairwise_append.mp h).2.2 q hq p (by simp)
    have he : (m.insert p.1 p.2).entries = m.entries ++ [p] :=
      insertEntry_of_forall_lt hp
    rw [List.foldl_cons, ih, he, List.append_assoc, List.singleton_append]
    rw [he, List.append_assoc, List.singleton_append]
    exact h

/-- A mapping is made again from its entries. -/
theorem ofList_entries (m : Mapping α) : ofList m.entries = m := by
  apply ext
  have h := entries_foldl_insert m.entries empty (by simpa [empty] using m.ascending)
  simpa [ofList, empty] using h

/-! ## Looking up -/

/-- The value under a key. -/
def get? (m : Mapping α) (key : String) : Option α :=
  (m.entries.find? fun p => p.1 = key).map Prod.snd

/-- The keys, in their order. -/
def keys (m : Mapping α) : List String := m.entries.map Prod.fst

/-- The mapping with the value under a key changed, if there is one. -/
def modify (m : Mapping α) (key : String) (f : α → α) : Mapping α where
  entries := m.entries.map fun p => if p.1 = key then (p.1, f p.2) else p
  ascending := by
    refine List.pairwise_map.mpr (m.ascending.imp fun {p q} h => ?_)
    split <;> split <;> exact h

theorem find?_insertEntry (key k : String) (a : α) (entries : List (String × α)) :
    ((insertEntry key a entries).find? fun p => p.1 = k).map Prod.snd =
      if key = k then some a else (entries.find? fun p => p.1 = k).map Prod.snd := by
  induction entries with
  | nil => by_cases h : key = k <;> simp [insertEntry, h]
  | cons p rest ih =>
    obtain ⟨k', b⟩ := p
    simp only [insertEntry]
    split
    · by_cases h : key = k <;> simp [List.find?_cons, h]
    · split
      · rename_i heq
        subst heq
        by_cases h : key = k <;> simp [h]
      · rename_i hne
        by_cases h' : k' = k
        · have hk : key ≠ k := fun h => hne (h.trans h'.symm)
          simp [h', hk]
        · simpa [List.find?_cons, h'] using ih

/-- After an insertion the key has the new value, and every other key the one it had. -/
theorem get?_insert (m : Mapping α) (key k : String) (a : α) :
    (m.insert key a).get? k = if key = k then some a else m.get? k :=
  find?_insertEntry key k a m.entries

theorem get?_modify (m : Mapping α) (key k : String) (f : α → α) :
    (m.modify key f).get? k = if key = k then (m.get? k).map f else m.get? k := by
  simp only [get?, modify]
  generalize m.entries = entries
  induction entries with
  | nil => simp
  | cons p rest ih =>
    obtain ⟨k', b⟩ := p
    by_cases h' : k' = k
    · subst h'
      by_cases h : key = k'
      · subst h
        simp
      · have hne : k' ≠ key := fun e => h e.symm
        simp [h, hne]
    · by_cases h : k' = key
      · subst h
        simpa [List.find?_cons, h'] using ih
      · simp only [List.map_cons, h, if_false, List.find?_cons, h', decide_false]
        exact ih

end Mapping

end WireCall
