import LanguageClient.Table

/-!
# Tables and their entries

`Table.lean` says what the operations do to the entry of a key. This file relates that to the list
of entries, which is what is counted and gone through. The two views agree on tables whose keys are
distinct (`mem_entries_iff`); setting a new key and erasing a key keep them so.
-/

namespace LanguageClient.Table

variable {α : Type}

variable {t : Table α} {k : Nat} {v : α}

theorem mem_of_get? (h : t.get? k = some v) :
    (k, v) ∈ t.entries := by
  obtain ⟨before, after, heq, -⟩ := List.lookup_eq_some_iff.mp h
  rw [heq]
  simp

theorem lookup_of_mem {es : List (Nat × α)} (hd : (es.map (·.1)).Nodup) (h : (k, v) ∈ es) :
    es.lookup k = some v := by
  induction es with
  | nil => cases h
  | cons e rest ih =>
    obtain ⟨k', v'⟩ := e
    obtain ⟨hnot, hrest⟩ := List.nodup_cons.mp hd
    rw [lookup_cons]
    rcases List.mem_cons.mp h with heq | hmem
    · obtain ⟨rfl, rfl⟩ := Prod.mk.inj heq
      rw [if_pos rfl]
    · have hk : k ≠ k' := by
        rintro rfl
        exact hnot (List.mem_map.mpr ⟨(k, v), hmem, rfl⟩)
      rw [if_neg hk]
      exact ih hrest hmem

theorem mem_entries_iff (hd : t.keys.Nodup) :
    (k, v) ∈ t.entries ↔ t.get? k = some v :=
  ⟨lookup_of_mem hd, mem_of_get?⟩

theorem setIn_of_lookup {es : List (Nat × α)} (v : α) (h : es.lookup k = none) :
    setIn k v es = es ++ [(k, v)] := by
  induction es with
  | nil => rfl
  | cons e rest ih =>
    obtain ⟨k', v'⟩ := e
    rw [lookup_cons] at h
    by_cases hk : k = k'
    · rw [if_pos hk] at h
      cases h
    · rw [if_neg hk] at h
      rw [setIn, if_neg (Ne.symm hk), ih h]
      rfl

theorem get?_set_self (t : Table α) (k : Nat) (v : α) : (t.set k v).get? k = some v := by simp

theorem get?_set_of_ne (t : Table α) (v : α) {k' : Nat} (h : k' ≠ k) :
    (t.set k v).get? k' = t.get? k' := by simp [h]

theorem get?_set_eq_some {t : Table α} {k' : Nat} {v w : α} :
    (t.set k v).get? k' = some w ↔ k' = k ∧ w = v ∨ k' ≠ k ∧ t.get? k' = some w := by
  by_cases h : k' = k
  · simp [h, eq_comm]
  · simp [h]

theorem get?_erase_self (t : Table α) (k : Nat) : (t.erase k).get? k = none := by simp

theorem set_set (t : Table α) (k : Nat) (v w : α) : (t.set k v).set k w = t.set k w := by
  have : ∀ es : List (Nat × α), setIn k w (setIn k v es) = setIn k w es := by
    intro es
    induction es with
    | nil => simp [setIn]
    | cons e rest ih =>
      obtain ⟨k', v'⟩ := e
      by_cases hk : k' = k
      · simp [setIn, hk]
      · simp [setIn, hk, ih]
  simp [set, this]

theorem set_of_get? (h : t.get? k = some v) : t.set k v = t := by
  have : ∀ es : List (Nat × α), es.lookup k = some v → setIn k v es = es := by
    intro es
    induction es with
    | nil => exact nofun
    | cons e rest ih =>
      obtain ⟨k', v'⟩ := e
      intro hl
      rw [lookup_cons] at hl
      by_cases hk : k = k'
      · rw [if_pos hk, Option.some.injEq] at hl
        simp [setIn, hk, hl]
      · rw [if_neg hk] at hl
        simp [setIn, Ne.symm hk, ih hl]
  exact congrArg Table.mk (this t.entries h)

theorem keys_set_of_get? (v : α) (h : t.get? k = none) :
    (t.set k v).keys = t.keys ++ [k] := by
  have : (t.set k v).entries = t.entries ++ [(k, v)] := setIn_of_lookup v h
  rw [keys, this, List.map_append]
  rfl

theorem keys_erase (t : Table α) (k : Nat) : (t.erase k).keys = t.keys.filter (· != k) := by
  unfold keys erase
  rw [List.filter_map]
  rfl

theorem not_mem_keys (h : t.get? k = none) : k ∉ t.keys := by
  intro hmem
  obtain ⟨⟨k, v⟩, hentry, rfl⟩ := List.mem_map.mp hmem
  simpa using List.lookup_eq_none_iff.mp h _ hentry

theorem nodup_keys_set (v : α) (hd : t.keys.Nodup) (h : t.get? k = none) :
    (t.set k v).keys.Nodup := by
  rw [keys_set_of_get? v h, List.nodup_append]
  refine ⟨hd, by simp, fun a ha b hb => ?_⟩
  rw [List.mem_singleton] at hb
  rintro rfl
  exact not_mem_keys h (hb ▸ ha)

theorem nodup_keys_erase (k : Nat) (hd : t.keys.Nodup) : (t.erase k).keys.Nodup := by
  rw [keys_erase]
  exact hd.filter _

end LanguageClient.Table
