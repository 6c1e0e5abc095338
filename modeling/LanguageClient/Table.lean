/-!
# Small tables keyed by number

Request numbers, calls and tasks are all looked up by a number. A table keeps its entries in the
order in which their keys were first used, which is the order in which things happened; setting a
key that is there keeps its place.
-/

namespace LanguageClient

/-- Entries keyed by number, in order of first use. -/
structure Table (α : Type) where
  entries : List (Nat × α) := []
  deriving DecidableEq, Repr

namespace Table

variable {α : Type}

def empty : Table α := ⟨[]⟩

def get? (t : Table α) (key : Nat) : Option α := t.entries.lookup key

/-- Replaces the first entry of a key in a list of entries, or adds one at the end. -/
def setIn (key : Nat) (value : α) : List (Nat × α) → List (Nat × α)
  | [] => [(key, value)]
  | (k, v) :: rest => if k = key then (key, value) :: rest else (k, v) :: setIn key value rest

def set (t : Table α) (key : Nat) (value : α) : Table α := ⟨setIn key value t.entries⟩

def erase (t : Table α) (key : Nat) : Table α := ⟨t.entries.filter (·.1 != key)⟩

def mapValues (t : Table α) (f : Nat → α → α) : Table α := ⟨t.entries.map fun e => (e.1, f e.1 e.2)⟩

def keys (t : Table α) : List Nat := t.entries.map (·.1)

def size (t : Table α) : Nat := t.entries.length

/-! ## What the operations do to the entry of a key -/

theorem lookup_cons (k' k : Nat) (v : α) (es : List (Nat × α)) :
    ((k', v) :: es).lookup k = if k = k' then some v else es.lookup k := by
  by_cases h : k = k'
  · simp [h]
  · have : (k == k') = false := by simp [h]
    simp [List.lookup_cons, this, h]

theorem lookup_setIn (key : Nat) (value : α) (k : Nat) (es : List (Nat × α)) :
    (setIn key value es).lookup k = if k = key then some value else es.lookup k := by
  induction es with
  | nil => simp [setIn, lookup_cons]
  | cons e rest ih =>
    obtain ⟨k', v⟩ := e
    by_cases h : k' = key
    · subst h
      by_cases hk : k = k' <;> simp [setIn, lookup_cons, hk]
    · by_cases hk : k = k'
      · subst hk
        simp [setIn, h]
      · simp [setIn, h, lookup_cons, hk, ih]

@[simp] theorem get?_set (t : Table α) (key : Nat) (value : α) (k : Nat) :
    (t.set key value).get? k = if k = key then some value else t.get? k :=
  lookup_setIn key value k t.entries

theorem lookup_filter_ne (key k : Nat) (es : List (Nat × α)) :
    (es.filter (·.1 != key)).lookup k = if k = key then none else es.lookup k := by
  induction es with
  | nil => simp
  | cons e rest ih =>
    obtain ⟨k', v⟩ := e
    by_cases h : k' = key
    · have dropped : ((k', v) :: rest).filter (·.1 != key) = rest.filter (·.1 != key) := by simp [h]
      by_cases hk : k = key
      · rw [dropped, ih, if_pos hk, if_pos hk]
      · rw [dropped, ih, if_neg hk, if_neg hk, lookup_cons, if_neg (by omega)]
    · have kept : ((k', v) :: rest).filter (·.1 != key) =
          (k', v) :: rest.filter (·.1 != key) := by simp [h]
      rw [kept, lookup_cons, lookup_cons, ih]
      by_cases hk : k = k'
      · simp [hk, h]
      · simp [hk]

@[simp] theorem get?_erase (t : Table α) (key k : Nat) :
    (t.erase key).get? k = if k = key then none else t.get? k :=
  lookup_filter_ne key k t.entries

end Table

end LanguageClient
