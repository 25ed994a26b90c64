import CallAtlas.Table

/-!
# Looking up

What a table answers after a change, and what a change does to its keys and entries. A look-up finds
the first entry of a key and `put` changes the first entry of a key, so none of these facts asks for
keys that stand only once. A list that grows at its end keeps what it has under a number.
-/

set_option autoImplicit false

namespace CallAtlas

section Extends

variable {α : Type} {xs ys : List α} {i : Nat}

theorem getElem?_eq_of_extends (h : xs <+: ys) (hi : i < xs.length) : ys[i]? = xs[i]? := by
  rw [List.prefix_iff_getElem?.mp h i hi, List.getElem?_eq_getElem hi]

theorem getElem?_of_extends (h : xs <+: ys) {a : α} (ha : xs[i]? = some a) : ys[i]? = some a :=
  (getElem?_eq_of_extends h (List.getElem?_eq_some_iff.mp ha).1).trans ha

end Extends

namespace Table

@[simp] theorem entries_empty {κ α : Type} : (∅ : Table κ α).entries = [] := rfl

variable {κ α : Type} [BEq κ] [LawfulBEq κ] {k k' : κ} {v : α} {t : Table κ α}

theorem lookup_put_self (k : κ) (v : α) (es : List (κ × α)) : (put k v es).lookup k = some v := by
  induction es with
  | nil => simp [put]
  | cons e rest ih =>
    obtain ⟨k', v'⟩ := e
    by_cases h : k' == k
    · rw [put, if_pos h, eq_of_beq h, List.lookup_cons_self]
    · have h' : (k == k') = false := by
        rw [beq_eq_false_iff_ne]
        exact fun hk => h (by simp [hk])
      rw [put, if_neg h, List.lookup_cons, h']
      exact ih

theorem lookup_put_of_ne (h : k' ≠ k) (v : α) (es : List (κ × α)) :
    (put k v es).lookup k' = es.lookup k' := by
  induction es with
  | nil => rw [put, List.lookup_cons, beq_eq_false_iff_ne.mpr h]
  | cons e rest ih =>
    obtain ⟨k'', v''⟩ := e
    by_cases hk : k'' == k
    · rw [put, if_pos hk, List.lookup_cons, List.lookup_cons, eq_of_beq hk,
        beq_eq_false_iff_ne.mpr h]
    · rw [put, if_neg hk, List.lookup_cons, List.lookup_cons, ih]

theorem get?_insert_self : (t.insert k v).get? k = some v := lookup_put_self k v t.entries

theorem get?_insert_of_ne (h : k' ≠ k) : (t.insert k v).get? k' = t.get? k' :=
  lookup_put_of_ne h v t.entries

theorem mem_keys_iff : k ∈ t.keys ↔ (t.get? k).isSome = true := by
  rw [get?, List.lookup_isSome_iff, keys, List.mem_map]
  constructor
  · rintro ⟨e, he, rfl⟩
    exact ⟨e, he, by simp⟩
  · rintro ⟨e, he, hk⟩
    exact ⟨e, he, (eq_of_beq hk).symm⟩

theorem contains_iff : t.contains k = true ↔ k ∈ t.keys := mem_keys_iff.symm

theorem mem_entries_of_get? (h : t.get? k = some v) : (k, v) ∈ t.entries := by
  obtain ⟨before, after, heq, _⟩ := List.lookup_eq_some_iff.mp h
  rw [heq]
  exact List.mem_append_right _ List.mem_cons_self

theorem insertNew_of_mem (h : k ∈ t.keys) : t.insertNew k v = t := by
  rw [insertNew, if_pos (contains_iff.mpr h)]

theorem insertNew_of_notMem (h : k ∉ t.keys) : t.insertNew k v = ⟨t.entries ++ [(k, v)]⟩ := by
  rw [insertNew, if_neg fun hc => h (contains_iff.mp hc)]

theorem keys_insertNew : k' ∈ (t.insertNew k v).keys ↔ k' ∈ t.keys ∨ k' = k := by
  by_cases h : k ∈ t.keys
  · rw [insertNew_of_mem h]
    exact ⟨Or.inl, fun hk => hk.elim id fun hk => hk ▸ h⟩
  · rw [insertNew_of_notMem h]
    simp [keys]

/-- A key that has a value keeps its place. -/
theorem keys_insert (h : k ∈ t.keys) : (t.insert k v).keys = t.keys := by
  obtain ⟨es⟩ := t
  simp only [keys, insert] at h ⊢
  induction es with
  | nil => exact absurd h (by simp)
  | cons e rest ih =>
    obtain ⟨k', v'⟩ := e
    by_cases hk : k' == k
    · rw [put, if_pos hk]
      rfl
    · rw [put, if_neg hk, List.map_cons, List.map_cons, ih]
      rcases List.mem_cons.mp h with h | h
      · exact absurd h fun h => hk (by simp [h])
      · exact h

theorem keys_insert_of_notMem (h : k ∉ t.keys) : (t.insert k v).keys = t.keys ++ [k] := by
  obtain ⟨es⟩ := t
  simp only [keys, insert] at h ⊢
  induction es with
  | nil => rfl
  | cons e rest ih =>
    obtain ⟨k', v'⟩ := e
    rw [List.map_cons, List.mem_cons, not_or] at h
    have hk : ¬ (k' == k) = true := fun heq => h.1 (eq_of_beq heq).symm
    rw [put, if_neg hk, List.map_cons, ih h.2]
    rfl

theorem mem_keys_insert : k' ∈ (t.insert k v).keys ↔ k' ∈ t.keys ∨ k' = k := by
  by_cases h : k ∈ t.keys
  · rw [keys_insert h]
    exact ⟨Or.inl, fun hk => hk.elim id fun hk => hk ▸ h⟩
  · rw [keys_insert_of_notMem h, List.mem_append, List.mem_singleton]

theorem nodup_keys_insert (h : t.keys.Nodup) : (t.insert k v).keys.Nodup := by
  by_cases hk : k ∈ t.keys
  · rw [keys_insert hk]
    exact h
  · rw [keys_insert_of_notMem hk, List.nodup_append]
    refine ⟨h, List.pairwise_singleton _ _, fun a ha b hb => ?_⟩
    rw [List.mem_singleton.mp hb]
    exact fun heq => hk (heq ▸ ha)

/-- Where every key stands once, a look-up finds any entry. -/
theorem get?_of_mem_entries (h : t.keys.Nodup) (hmem : (k, v) ∈ t.entries) : t.get? k = some v := by
  obtain ⟨es⟩ := t
  simp only [keys, get?] at h hmem ⊢
  induction es with
  | nil => exact absurd hmem List.not_mem_nil
  | cons e rest ih =>
    rw [List.map_cons, List.nodup_cons] at h
    rcases List.mem_cons.mp hmem with rfl | hmem
    · exact List.lookup_cons_self
    · have hne : (k == e.1) = false := by
        rw [beq_eq_false_iff_ne]
        exact fun heq => h.1 (heq ▸ List.mem_map_of_mem hmem)
      rw [List.lookup_cons, hne]
      exact ih h.2 hmem

theorem mem_entries_insert {e : κ × α} (h : e ∈ (t.insert k v).entries) :
    e = (k, v) ∨ e ∈ t.entries := by
  obtain ⟨es⟩ := t
  simp only [insert] at h ⊢
  induction es with
  | nil => exact Or.inl (List.mem_singleton.mp h)
  | cons e' rest ih =>
    obtain ⟨k', v'⟩ := e'
    by_cases hk : k' == k
    · rw [put, if_pos hk] at h
      rcases List.mem_cons.mp h with h | h
      · exact Or.inl (h.trans (by rw [eq_of_beq hk]))
      · exact Or.inr (List.mem_cons_of_mem _ h)
    · rw [put, if_neg hk] at h
      rcases List.mem_cons.mp h with h | h
      · exact Or.inr (h ▸ List.mem_cons_self)
      · exact (ih h).imp_right (List.mem_cons_of_mem _)

/-- In a table of lists, a new list counts in the place of the old one. -/
theorem length_flatten_insert {β : Type} {t : Table κ (List β)} {old : List β}
    (h : t.get? k = some old) (new : List β) :
    (t.insert k new).values.flatten.length + old.length
      = t.values.flatten.length + new.length := by
  obtain ⟨es⟩ := t
  simp only [get?, values, insert] at h ⊢
  induction es with
  | nil => exact absurd h (by simp)
  | cons e rest ih =>
    obtain ⟨k', v'⟩ := e
    by_cases hk : k' == k
    · rw [eq_of_beq hk, List.lookup_cons_self, Option.some.injEq] at h
      simp only [put, if_pos hk, List.map_cons, List.flatten_cons, List.length_append, h]
      omega
    · have hk' : (k == k') = false := by
        rw [beq_eq_false_iff_ne]
        exact fun heq => hk (by simp [heq])
      rw [List.lookup_cons, hk'] at h
      have hrest := ih h
      simp only [put, if_neg hk, List.map_cons, List.flatten_cons, List.length_append]
      omega

end Table

end CallAtlas
