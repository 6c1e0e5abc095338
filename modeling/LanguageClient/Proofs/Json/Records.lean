import LanguageClient.Json.Decode
import LanguageClient.Proofs.Json.Overlay

/-!
# What decoding a record comes to

A record is decoded from an object by visiting the members in key order, and from an array by visiting
the items in declaration order. Both come to the same thing: every field, in declaration order, takes the
value that is said about it (`storeFields`). For an object that is what it says about the name of the
field (`asRecord_obj_eq_ok_iff`), and for an array what stands at the place of the field
(`asRecord_arr_eq_ok_iff`).

The members of an object are in the order of their keys and the fields are not, so fields have to store
independently of each other (`Independent`): storing one value and then another one in two fields comes to
the same in either order, up to which of two problems is reported.
-/

namespace LanguageClient.Json

variable {β : Type} {ms : List (String × Json)}

/-! ## Fields in declaration order -/

/-- A field takes what is said about its name, if anything is. -/
def Field.take (f : Field β) (member : String → Option Json) (record : β) : Option β :=
  (member f.name).elim (some record) fun v => (f.store v record).toOption

/-- Visits the fields of a record in declaration order. -/
def storeFields : List (Field β) → (String → Option Json) → β → Option β
  | [], _, record => some record
  | f :: fields, member, record => (f.take member record).bind (storeFields fields member)

/-- It makes no difference which of two fields is stored first. -/
def Field.Commutes (f g : Field β) : Prop :=
  ∀ v w record, ((f.store v record).toOption.bind fun record => (g.store w record).toOption) =
    (g.store w record).toOption.bind fun record => (f.store v record).toOption

/-- Fields with names of their own that can be stored in any order. -/
structure Independent (fields : List (Field β)) : Prop where
  names : fields.Pairwise fun f g => f.name ≠ g.name
  commutes : fields.Pairwise Field.Commutes

theorem Independent.tail {f : Field β} {fields : List (Field β)} (h : Independent (f :: fields)) :
    Independent fields :=
  ⟨(List.pairwise_cons.mp h.names).2, (List.pairwise_cons.mp h.commutes).2⟩

/-- A field that decodes a value of its own and puts it in its place. -/
def Field.slot {α : Type} (name : String) (presence : Presence) (decode : Json → Decoded α)
    (put : α → β → β) : Field β :=
  ⟨name, presence, fun v record => (decode v).map (put · record)⟩

theorem Field.commutes_slot {α γ : Type} {name name' : String} {presence presence' : Presence}
    {decode : Json → Decoded α} {decode' : Json → Decoded γ} {put : α → β → β} {put' : γ → β → β}
    (h : ∀ a b record, put' b (put a record) = put a (put' b record)) :
    (slot name presence decode put).Commutes (slot name' presence' decode' put') := by
  intro v w record
  dsimp only [slot]
  cases decode v with
  | error e => cases decode' w <;> rfl
  | ok a =>
    cases decode' w with
    | error e => rfl
    | ok b => exact congrArg some (h a b record)

variable {f : Field β} {fields : List (Field β)} {member other : String → Option Json}

variable {v : Json} {start record : β}

theorem Field.take_of_some (h : member f.name = some v) (record : β) :
    f.take member record = (f.store v record).toOption := by
  rw [Field.take, h, Option.elim_some]

theorem Field.take_of_none (h : member f.name = none) (record : β) :
    f.take member record = some record := by
  rw [Field.take, h, Option.elim_none]

/-- What is carried of an optional member: nothing, if it is missing or `null`. -/
def carried (member : Option Json) : Option Json := member.bind asPresent

theorem carried_of_ne (h : v ≠ .null) : carried (some v) = some v := by
  cases v with
  | null => exact absurd rfl h
  | _ => rfl

variable {α : Type} {name : String} {presence : Presence} {decode : Json → Decoded α}

@[simp] theorem storeFields_nil (record : β) : storeFields [] member record = some record := rfl

theorem storeFields_of_absent (h : member f.name = none) (record : β) :
    storeFields (f :: fields) member record = storeFields fields member record := by
  rw [storeFields, f.take_of_none h, Option.bind_some]

theorem storeFields_slot {put : α → β → β} (h : member name = some v) :
    storeFields (.slot name presence decode put :: fields) member start = some record ↔
      ∃ a, decode v = .ok a ∧ storeFields fields member (put a start) = some record := by
  rw [storeFields, Field.take_of_some h]
  dsimp only [Field.slot]
  cases decode v with
  | error e | ok a => simp [Except.map, Except.toOption]

theorem storeFields_carried {put : Option Json → β → β} (h : put none start = start) :
    storeFields (.slot name presence (fun v => .ok (asPresent v)) put :: fields) member start =
      storeFields fields member (put (carried (member name)) start) := by
  cases hname : member name with
  | none => exact (storeFields_of_absent hname start).trans (congrArg (storeFields fields member) h.symm)
  | some v =>
    rw [storeFields, Field.take_of_some hname]
    rfl

theorem storeFields_congr (h : ∀ f ∈ fields, member f.name = other f.name) (record : β) :
    storeFields fields member record = storeFields fields other record := by
  induction fields generalizing record with
  | nil => rfl
  | cons f fields ih =>
    obtain ⟨hf, hfields⟩ := List.forall_mem_cons.mp h
    rw [storeFields, storeFields, Field.take, Field.take, hf]
    congr 1
    exact funext (ih hfields)

theorem storeFields_of_none (h : ∀ f ∈ fields, member f.name = none) (record : β) :
    storeFields fields member record = some record := by
  induction fields with
  | nil => rfl
  | cons f fields ih =>
    obtain ⟨hf, hfields⟩ := List.forall_mem_cons.mp h
    rw [storeFields_of_absent hf, ih hfields]

theorem Field.Commutes.take {g : Field β} (h : g.Commutes f) (v : Json) (record : β) :
    ((g.take member record).bind fun record => (f.store v record).toOption) =
      (f.store v record).toOption.bind (g.take member) := by
  cases hg : member g.name with
  | none =>
    rw [g.take_of_none hg, Option.bind_some, funext (g.take_of_none hg)]
    exact (Option.bind_fun_some _).symm
  | some w =>
    rw [g.take_of_some hg, funext (g.take_of_some hg)]
    exact h w v record

/-! ## Objects -/

/-- One member more. Its field can be stored before all others. -/
theorem storeFields_insert (hfields : Independent fields) {key : String} (habsent : member key = none)
    (hfind : fields.find? (·.name == key) = some f) (v : Json) (record : β) :
    storeFields fields (fun k => if k = key then some v else member k) record =
      (f.store v record).toOption.bind (storeFields fields member) := by
  induction fields generalizing record with
  | nil => cases hfind
  | cons g fields ih =>
    obtain ⟨hnames, -⟩ := List.pairwise_cons.mp hfields.names
    obtain ⟨hcommutes, -⟩ := List.pairwise_cons.mp hfields.commutes
    rw [List.find?_cons] at hfind
    by_cases hkey : g.name = key
    · -- This is the field: no other one has its name.
      rw [beq_iff_eq.mpr hkey] at hfind
      obtain rfl := Option.some.inj hfind
      have hothers : ∀ f ∈ fields, (if f.name = key then some v else member f.name) = member f.name :=
        fun f hf => if_neg fun hname => hnames f hf (hkey.trans hname.symm)
      have hnone : member g.name = none := by rw [hkey, habsent]
      rw [storeFields, g.take_of_some (if_pos hkey), funext (storeFields_congr hothers)]
      congr 1
      funext stored
      rw [storeFields_of_absent hnone]
    · -- The field comes later, and is stored before this one all the same.
      rw [beq_eq_false_iff_ne.mpr hkey] at hfind
      have hmem : f ∈ fields := List.mem_of_find?_eq_some hfind
      have htake : g.take (fun k => if k = key then some v else member k) record =
          g.take member record := by
        rw [Field.take, Field.take, if_neg hkey]
      rw [storeFields, htake, funext (ih hfields.tail hfind), ← Option.bind_assoc,
        (hcommutes f hmem).take, Option.bind_assoc]
      rfl

theorem toOption_bind {ε γ : Type} (x : Except ε α) (k : α → Except ε γ) :
    (x >>= k).toOption = x.toOption.bind fun a => (k a).toOption := by
  cases x <;> rfl

/-- Visiting the members in key order comes to visiting the fields in declaration order. -/
theorem toOption_storeMembers (hfields : Independent fields) (hsorted : Sorted ms) (record : β) :
    (storeMembers fields ms record).toOption = storeFields fields (fun k => ms.lookup k) record := by
  induction ms generalizing record with
  | nil => exact (storeFields_of_none (fun _ _ => rfl) record).symm
  | cons m ms ih =>
    obtain ⟨key, v⟩ := m
    have hrest := ih (List.pairwise_cons.mp hsorted).2
    rw [storeMembers, funext (lookup_member key v ms)]
    cases hfind : fields.find? (·.name == key) with
    | none =>
      -- An unknown member is ignored.
      have hother : ∀ f ∈ fields, ms.lookup f.name =
          if f.name = key then some v else ms.lookup f.name := by
        intro f hf
        have hname : f.name ≠ key := by simpa using List.find?_eq_none.mp hfind f hf
        rw [if_neg hname]
      exact (hrest record).trans (storeFields_congr hother record)
    | some f =>
      rw [storeFields_insert hfields (lookup_eq_none_of_sorted hsorted) hfind]
      dsimp only
      rw [toOption_bind]
      congr 1
      exact funext hrest

theorem toOption_eq_some_iff {ε : Type} {x : Except ε α} {a : α} :
    x.toOption = some a ↔ x = .ok a := by
  cases x <;> simp [Except.toOption]

/-- An object is decoded by what it says about the fields, and it has to say something about those that
are required. -/
theorem asRecord_obj_eq_ok_iff (hfields : Independent fields) (hsorted : Sorted ms) :
    asRecord name fields start (.obj ms) = .ok record ↔
      storeFields fields (fun k => ms.lookup k) start = some record ∧
        ∀ f ∈ fields, f.presence = .required → ms.lookup f.name ≠ none := by
  have hmissing : firstMissing fields ms = none ↔
      ∀ f ∈ fields, f.presence = .required → ms.lookup f.name ≠ none := by
    simp [firstMissing]
  rw [← hmissing, ← toOption_storeMembers hfields hsorted, toOption_eq_some_iff, asRecord]
  cases storeMembers fields ms start with
  | error e => simp [bind, Except.bind]
  | ok stored => cases firstMissing fields ms <;> simp [bind, Except.bind]

/-! ## Arrays -/

/-- What an array says about the names of the fields that it lists. -/
def listedMember (fields : List (Field β)) (items : List Json) (k : String) : Option Json :=
  ((fields.map Field.name).zip items).lookup k

theorem listedMember_nil (fields : List (Field β)) (k : String) : listedMember fields [] k = none := by
  rw [listedMember, List.zip_nil_right, List.lookup_nil]

theorem listedMember_cons (f : Field β) (fields : List (Field β)) (v : Json) (items : List Json)
    (k : String) : listedMember (f :: fields) (v :: items) k =
      if k = f.name then some v else listedMember fields items k :=
  lookup_member f.name v _ k

theorem listedMember_name (hnames : fields.Pairwise fun f g => f.name ≠ g.name) (items : List Json)
    (i : Nat) (hi : (fields.map Field.name)[i]? = some name) :
    listedMember fields items name = items[i]? := by
  induction fields generalizing items i with
  | nil => cases hi
  | cons f fields ih =>
    obtain ⟨hfirst, hrest⟩ := List.pairwise_cons.mp hnames
    cases items with
    | nil => rw [listedMember_nil, List.getElem?_nil]
    | cons v items =>
      rw [listedMember_cons]
      cases i with
      | zero =>
        obtain rfl := Option.some.inj hi
        rw [if_pos rfl, List.getElem?_cons_zero]
      | succ i =>
        rw [List.map_cons, List.getElem?_cons_succ] at hi
        obtain ⟨g, hg, rfl⟩ := List.mem_map.mp (List.mem_of_getElem? hi)
        rw [if_neg (hfirst g hg).symm, ih hrest items i hi, List.getElem?_cons_succ]

theorem storeItems_eq_ok_iff (hnames : fields.Pairwise fun f g => f.name ≠ g.name) {short : String}
    {index : Nat} {items : List Json} :
    storeItems short index fields items start = .ok ([], record) ↔
      items.length ≤ fields.length ∧ (∀ f ∈ fields.drop items.length, f.presence = .optional) ∧
        storeFields fields (listedMember fields items) start = some record := by
  induction fields generalizing index items start with
  | nil => cases items <;> simp [storeItems, storeFields]
  | cons f fields ih =>
    obtain ⟨hfirst, hrest⟩ := List.pairwise_cons.mp hnames
    cases items with
    | nil =>
      -- Nothing is left: every further field has to be one that can be left out.
      have hnone : ∀ g ∈ f :: fields, listedMember (f :: fields) [] g.name = none :=
        fun g _ => listedMember_nil _ _
      have hnone' : ∀ g ∈ fields, listedMember fields [] g.name = none := fun g _ => listedMember_nil _ _
      have ih' : storeItems short index fields [] start = .ok ([], record) ↔ _ := ih hrest
      rw [storeFields_of_none hnone'] at ih'
      rw [storeFields_of_none hnone, storeItems]
      by_cases hoptional : f.presence = .optional
      · simp [hoptional, ih']
      · simp [hoptional]
    | cons v items =>
      have hothers : ∀ g ∈ fields, listedMember (f :: fields) (v :: items) g.name =
          listedMember fields items g.name := fun g hg => by
        rw [listedMember_cons, if_neg (hfirst g hg).symm]
      have hself : listedMember (f :: fields) (v :: items) f.name = some v := by
        rw [listedMember_cons, if_pos rfl]
      rw [storeItems, storeFields, f.take_of_some hself, funext (storeFields_congr hothers)]
      cases f.store v start with
      | error e => simp [bind, Except.bind, Except.toOption]
      | ok stored =>
        change storeItems short (index + 1) fields items stored = _ ↔ _
        rw [ih hrest]
        simp [Except.toOption]

/-- An array is decoded by what it lists. It may be too short for fields that can be left out in
arrays. -/
theorem asRecord_arr_eq_ok_iff (hnames : fields.Pairwise fun f g => f.name ≠ g.name)
    {items : List Json} :
    asRecord name fields start (.arr items) = .ok record ↔
      items.length ≤ fields.length ∧ (∀ f ∈ fields.drop items.length, f.presence = .optional) ∧
        storeFields fields (listedMember fields items) start = some record := by
  rw [← storeItems_eq_ok_iff hnames, asRecord]
  dsimp only
  cases storeItems _ 0 fields items start with
  | error e => simp [bind, Except.bind]
  | ok left =>
    obtain ⟨left, stored⟩ := left
    cases left <;> simp [bind, Except.bind]

end LanguageClient.Json
