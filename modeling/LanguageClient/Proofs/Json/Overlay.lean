import LanguageClient.Json.Overlay
import LanguageClient.Proofs.Json.RoundTrip

/-!
# Documents that lie over each other

What a document says about one key, when it is put together from others. Inserting a member changes
what is said about its own key and nothing else (`lookup_insertMember`), so that a record laid over
another one can be looked at key by key: `laid` says what becomes of two entries of one key, and
`get?_overlay` that nothing more happens.

A record that lies over a record is mixed with it and not put in its place. For values that are read
as one of a few names this makes no difference, unless the upper record is empty: a name with another
one beside it is no longer a name (`eq_of_overlayMembers`).
-/

namespace LanguageClient.Json

/-! ## Looking a key up -/

theorem lookup_member (key : String) (v : Json) (ms : List (String × Json)) (k : String) :
    ((key, v) :: ms).lookup k = if k = key then some v else ms.lookup k := by
  rw [List.lookup_cons]
  by_cases h : k = key
  · simp [h]
  · have hbeq : (k == key) = false := by simpa using h
    simp [h, hbeq]

theorem lookup_insertMember (key : String) (v : Json) (ms : List (String × Json)) (k : String) :
    (insertMember key v ms).lookup k = if k = key then some v else ms.lookup k := by
  induction ms with
  | nil => rw [insertMember, lookup_member]
  | cons n ms ih =>
    obtain ⟨first, w⟩ := n
    rw [insertMember]
    split
    · next heq =>
      subst heq
      rw [lookup_member, lookup_member]
      by_cases h : k = key <;> simp [h]
    · next hne =>
      split
      · rw [lookup_member]
      · rw [lookup_member, lookup_member, ih]
        by_cases h : k = first
        · simp [h, Ne.symm hne]
        · simp [h]

/-- Of members that are inserted one after the other the last one of a key counts. -/
theorem lookup_foldl_insertMember (ms acc : List (String × Json)) (k : String) :
    (ms.foldl (fun acc m => insertMember m.1 m.2 acc) acc).lookup k =
      (ms.reverse.lookup k).or (acc.lookup k) := by
  induction ms generalizing acc with
  | nil => simp
  | cons m ms ih =>
    obtain ⟨key, v⟩ := m
    rw [List.foldl_cons, ih, lookup_insertMember, List.reverse_cons, List.lookup_append,
      Option.or_assoc, lookup_member]
    by_cases h : k = key <;> simp [h]

theorem get?_ofMembers (ms : List (String × Json)) (k : String) :
    (ofMembers ms).get? k = ms.reverse.lookup k := by
  simp [ofMembers, get?, lookup_foldl_insertMember]

theorem lookup_eq_none_of_sorted {k : String} {v : Json} {ms : List (String × Json)}
    (h : Sorted ((k, v) :: ms)) : ms.lookup k = none := by
  rw [List.lookup_eq_none_iff]
  intro m hm
  have hlt : k < m.1 := (List.pairwise_cons.mp h).1 m hm
  simpa using hlt.ne

/-! ## Records -/

/-- A record with its members in order. -/
def IsRecord (v : Json) : Prop := ∃ ms, v = .obj ms ∧ Sorted ms

theorem isRecord_empty : IsRecord (.obj []) := ⟨[], rfl, .nil⟩

theorem isRecord_ofMembers (ms : List (String × Json)) : IsRecord (ofMembers ms) :=
  ⟨_, rfl, sorted_foldl_insertMember .nil ms⟩

theorem sorted_overlayMembers {lower : List (String × Json)} (h : Sorted lower)
    (upper : List (String × Json)) : Sorted (overlayMembers upper lower) := by
  induction upper generalizing lower with
  | nil =>
    rw [overlayMembers]
    exact h
  | cons m upper ih =>
    rw [overlayMembers]
    exact ih (sorted_insertMember h _ _)

theorem IsRecord.overlay {u l : Json} (hu : IsRecord u) (hl : IsRecord l) :
    IsRecord (u.overlay l) := by
  obtain ⟨upper, rfl, -⟩ := hu
  obtain ⟨lower, rfl, hlower⟩ := hl
  rw [Json.overlay]
  exact ⟨_, rfl, sorted_overlayMembers hlower upper⟩

/-! ## One entry over another -/

/-- What two documents say about a key, the first lying over the second. -/
def laid : Option Json → Option Json → Option Json
  | none, lower => lower
  | some v, none => some v
  | some v, some w => some (v.overlay w)

theorem lookup_overlayMembers {upper : List (String × Json)} (h : Sorted upper)
    (lower : List (String × Json)) (k : String) :
    (overlayMembers upper lower).lookup k = laid (upper.lookup k) (lower.lookup k) := by
  induction upper generalizing lower with
  | nil => rw [overlayMembers, List.lookup_nil, laid]
  | cons m upper ih =>
    obtain ⟨key, v⟩ := m
    rw [overlayMembers, ih (List.pairwise_cons.mp h).2, lookup_insertMember]
    by_cases hk : k = key
    · subst hk
      rw [if_pos rfl, lookup_eq_none_of_sorted h, List.lookup_cons_self]
      cases lower.lookup k <;> rfl
    · rw [if_neg hk, lookup_member, if_neg hk]

theorem get?_overlay {u l : Json} (hu : IsRecord u) (hl : IsRecord l) (k : String) :
    (u.overlay l).get? k = laid (u.get? k) (l.get? k) := by
  obtain ⟨upper, rfl, hupper⟩ := hu
  obtain ⟨lower, rfl, -⟩ := hl
  rw [overlay]
  exact lookup_overlayMembers hupper lower k

/-! ## Records over records -/

/-- A value that, if it is a record, has its members in order. -/
def Tidy (v : Json) : Prop := ∀ ms, v = .obj ms → Sorted ms

theorem IsRecord.tidy {v : Json} (h : IsRecord v) : Tidy v := by
  obtain ⟨ms, rfl, hms⟩ := h
  intro ms' hms'
  cases hms'
  exact hms

theorem Proper.tidy {d : Nat} {v : Json} (h : Proper d v) : Tidy v := by
  rintro ms rfl
  cases h with
  | obj _ hsorted => exact hsorted

theorem overlay_of_not_obj {u : Json} (h : ∀ ms, u ≠ .obj ms) (l : Json) : u.overlay l = u := by
  cases u with
  | obj ms => exact absurd rfl (h ms)
  | _ => rfl

theorem Tidy.overlay {u l : Json} (hu : Tidy u) (hl : Tidy l) : Tidy (u.overlay l) := by
  cases u with
  | obj upper =>
    cases l with
    | obj lower =>
      have hrecord : IsRecord ((Json.obj upper).overlay (.obj lower)) :=
        IsRecord.overlay ⟨upper, rfl, hu upper rfl⟩ ⟨lower, rfl, hl lower rfl⟩
      exact hrecord.tidy
    | _ => exact hu
  | _ => exact hu

theorem eq_null_of_overlay {v w : Json} (h : v.overlay w = .null) : v = .null := by
  cases v with
  | null => rfl
  | obj ms => cases w <;> cases h
  | _ => cases h

/-- What is left with a single empty member after a record has been laid over it was that record, if
the record says anything. -/
theorem eq_of_overlayMembers {upper lower : List (String × Json)} {name : String}
    (hsorted : Sorted upper) (hsome : upper ≠ [])
    (h : overlayMembers upper lower = [(name, .null)]) : upper = [(name, .null)] := by
  -- Every member of the upper record shows in the result.
  have hshow : ∀ k v, upper.lookup k = some v → k = name ∧ v = .null := by
    intro k v hv
    have hlookup := lookup_overlayMembers hsorted lower k
    rw [h, hv, lookup_member, List.lookup_nil] at hlookup
    by_cases hk : k = name
    · subst hk
      rw [if_pos rfl] at hlookup
      refine ⟨rfl, ?_⟩
      cases hw : lower.lookup k with
      | none =>
        rw [hw] at hlookup
        exact (Option.some.inj hlookup).symm
      | some w =>
        rw [hw] at hlookup
        exact eq_null_of_overlay (Option.some.inj hlookup).symm
    · rw [if_neg hk] at hlookup
      cases hw : lower.lookup k <;> rw [hw] at hlookup <;> cases hlookup
  obtain ⟨⟨k, v⟩, rest, rfl⟩ := List.exists_cons_of_ne_nil hsome
  obtain ⟨rfl, rfl⟩ := hshow k v List.lookup_cons_self
  cases rest with
  | nil => rfl
  | cons m rest =>
    obtain ⟨k', v'⟩ := m
    have hlt : k < k' := (List.pairwise_cons.mp hsorted).1 _ List.mem_cons_self
    obtain ⟨heq, -⟩ := hshow k' v' (by rw [lookup_member, if_neg hlt.ne', List.lookup_cons_self])
    exact absurd heq hlt.ne'

end LanguageClient.Json
