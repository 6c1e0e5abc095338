import LanguageClient.Proofs.Json.Grammar
import Mathlib.Tactic.SplitIfs

/-!
# The reader reads the texts of values and nothing else

Two inductions meet in `parse_eq_ok_iff`. The first is on the text (`Denotes.reads`): whatever follows
that is no part of a number, every text is read as the value that it denotes. One unit of fuel for each
octet is enough, because every call of the reader goes with an octet that only this call takes. The
second is on the fuel (`sound`): wherever the reader succeeds, it has passed over space and then over a
text of the value that it returns.
-/

namespace LanguageClient.Json

open LanguageClient.Text

variable {d fuel : Nat} {v : Json} {space text bytes rest more : List UInt8} {b : UInt8}

/-! ## Space -/

theorem skipSpace_append (h : Spaces space) (rest : List UInt8) :
    skipSpace (space ++ rest) = skipSpace rest :=
  List.dropWhile_append_of_pos h

theorem skipSpace_cons (h : isSpace b = false) (rest : List UInt8) :
    skipSpace (b :: rest) = b :: rest := by
  simp [skipSpace, h]

theorem skipSpace_eq_nil_iff : skipSpace bytes = [] ↔ Spaces bytes := List.dropWhile_eq_nil_iff

theorem exists_space (h : skipSpace bytes = b :: rest) :
    ∃ space, Spaces space ∧ bytes = space ++ b :: rest := by
  refine ⟨bytes.takeWhile isSpace, fun _ => List.mem_takeWhile_imp, ?_⟩
  rw [← h, skipSpace, List.takeWhile_append_dropWhile]

theorem spaces_nil : Spaces [] := List.forall_mem_nil _

theorem Spaces.append {space' : List UInt8} (h : Spaces space) (h' : Spaces space') :
    Spaces (space ++ space') :=
  List.forall_mem_append.mpr ⟨h, h'⟩

theorem value_space (h : Spaces space) (bytes : List UInt8) :
    value (fuel + 1) d (space ++ bytes) = value (fuel + 1) d bytes := by
  rw [value, value, skipSpace_append h]

theorem items_space (h : Spaces space) (first : Bool) (acc : List Json) (bytes : List UInt8) :
    items (fuel + 1) d first acc (space ++ bytes) = items (fuel + 1) d first acc bytes := by
  rw [items, items, skipSpace_append h]

theorem members_space (h : Spaces space) (first : Bool) (acc : List (String × Json))
    (bytes : List UInt8) :
    members (fuel + 1) d first acc (space ++ bytes) = members (fuel + 1) d first acc bytes := by
  rw [members, members, skipSpace_append h]

/-! ## Where texts begin and end -/

/-- The text begins neither with a space nor with the end of a list. -/
def Starts (bytes : List UInt8) : Prop :=
  ∃ b bs, bytes = b :: bs ∧ isSpace b = false ∧ (b == 0x5D) = false

theorem Starts.append (h : Starts bytes) (rest : List UInt8) : Starts (bytes ++ rest) := by
  obtain ⟨b, bs, rfl, hb⟩ := h
  exact ⟨b, bs ++ rest, rfl, hb⟩

theorem Starts.length_pos (h : Starts bytes) : 0 < bytes.length := by
  obtain ⟨b, bs, rfl, -⟩ := h
  exact Nat.succ_pos _

theorem Starts.skipSpace (h : Starts bytes) : skipSpace bytes = bytes := by
  obtain ⟨b, bs, rfl, hspace, -⟩ := h
  exact skipSpace_cons hspace bs

theorem IsWhole.exists_cons {digits : List UInt8} (h : IsWhole digits) :
    ∃ b bs, digits = b :: bs ∧ isDigit b = true := by
  rcases h with rfl | ⟨hdigits, -⟩
  · exact ⟨0x30, [], rfl, rfl⟩
  · obtain ⟨b, bs, rfl⟩ := List.exists_cons_of_ne_nil hdigits.nonempty
    exact ⟨b, bs, rfl, hdigits.digits b List.mem_cons_self⟩

theorem Denotes.starts (h : Denotes d text v) : Starts text := by
  cases h with
  | null => exact ⟨0x6E, _, rfl, rfl, rfl⟩
  | true => exact ⟨0x74, _, rfl, rfl, rfl⟩
  | false => exact ⟨0x66, _, rfl, rfl, rfl⟩
  | @num _ x n h =>
    obtain ⟨b, bs, hwhole, hb⟩ := x.isWhole.exists_cons
    rw [Numeral.octets, Numeral.unsigned, hwhole]
    cases x.negative with
    | true => exact ⟨0x2D, _, rfl, rfl, rfl⟩
    | false => exact ⟨b, _, rfl, isSpace_of_isDigit hb, beq_of_isDigit hb rfl⟩
  | str => exact ⟨0x22, _, rfl, rfl, rfl⟩
  | arr => exact ⟨0x5B, _, rfl, rfl, rfl⟩
  | obj => exact ⟨0x7B, _, rfl, rfl, rfl⟩

theorem delimited_cons (h : isDigit b = false ∧ b ≠ 0x2E ∧ b ≠ 0x65 ∧ b ≠ 0x45)
    (rest : List UInt8) : Delimited (b :: rest) := by
  intro b' hb'
  obtain rfl := Option.some.inj hb'
  exact h

theorem delimited_append (h : Spaces space) (hrest : Delimited rest) : Delimited (space ++ rest) := by
  cases space with
  | nil => exact hrest
  | cons b space =>
    refine delimited_cons ?_ _
    have hb := h b List.mem_cons_self
    simp only [isSpace, Bool.or_eq_true, beq_iff_eq] at hb
    rcases hb with ((rfl | rfl) | rfl) | rfl <;> decide

theorem Spaced.length_text_le (s : Spaced) : s.text.length ≤ s.octets.length := by
  simp only [Spaced.octets, List.length_append]
  omega

theorem Quoted.length_pos {w m : List UInt8} (h : Quoted w m) : 0 < w.length := by
  induction h with
  | close => exact Nat.one_pos
  | piece h hrest ih =>
    rw [List.length_append]
    omega

theorem Member.length_text_lt (m : Member) : m.item.text.length + 3 ≤ m.octets.length := by
  have hquoted := m.isQuoted.length_pos
  have hitem := m.item.length_text_le
  simp only [Member.octets, List.length_append, List.length_cons]
  omega

theorem delimited_parts {closing : UInt8} (h : closing = 0x5D ∨ closing = 0x7D)
    (parts : List (List UInt8)) (rest : List UInt8) :
    Delimited (parts.flatMap (0x2C :: ·) ++ closing :: rest) := by
  cases parts with
  | nil =>
    refine delimited_cons ?_ _
    rcases h with rfl | rfl <;> decide
  | cons part parts => exact delimited_cons (b := 0x2C) (by decide) _

/-! ## Texts are read -/

/-- The text is read as the value, whatever follows that is no part of a number. -/
def Reads (d : Nat) (text : List UInt8) (v : Json) : Prop :=
  ∀ (fuel : Nat) (rest : List UInt8), text.length ≤ fuel → Delimited rest →
    value fuel d (text ++ rest) = .ok (v, rest)

theorem reads_of_succ (hstarts : Starts text)
    (h : ∀ fuel rest, Delimited rest → value (fuel + 1) d (text ++ rest) = .ok (v, rest)) :
    Reads d text v := by
  intro fuel rest hfuel hrest
  have hpos := hstarts.length_pos
  obtain ⟨fuel, rfl⟩ : ∃ k, fuel = k + 1 := ⟨fuel - 1, by omega⟩
  exact h fuel rest hrest

theorem value_of_digit (h : isDigit b = true) (rest : List UInt8) :
    value (fuel + 1) d (b :: rest) = number false (b :: rest) := by
  simp [value, skipSpace, isSpace_of_isDigit h, h, beq_of_isDigit h (k := 0x6E) rfl,
    beq_of_isDigit h (k := 0x74) rfl, beq_of_isDigit h (k := 0x66) rfl,
    beq_of_isDigit h (k := 0x2D) rfl]

theorem value_numeral (x : Numeral) (h : Delimited rest) :
    value (fuel + 1) d (x.octets ++ rest) = finishNumber x.value? rest := by
  have hnumber := number_numeral x h
  rw [Numeral.octets]
  cases hnegative : x.negative with
  | true =>
    rw [hnegative] at hnumber
    change value (fuel + 1) d (0x2D :: (x.unsigned ++ rest)) = _
    simp [value, skipSpace, isSpace, hnumber]
  | false =>
    rw [hnegative] at hnumber
    obtain ⟨b, bs, hwhole, hb⟩ := x.isWhole.exists_cons
    change value (fuel + 1) d (x.unsigned ++ rest) = _
    rw [← hnumber, Numeral.unsigned, hwhole]
    exact value_of_digit hb _

theorem value_items (bytes : List UInt8) :
    value (fuel + 1) (d + 1) (0x5B :: bytes) = items fuel d true [] bytes := by
  rw [value, skipSpace_cons rfl]
  rfl

theorem value_members (bytes : List UInt8) :
    value (fuel + 1) (d + 1) (0x7B :: bytes) = members fuel d true [] bytes := by
  rw [value, skipSpace_cons rfl]
  rfl

theorem items_end (first : Bool) (acc : List Json) :
    items (fuel + 1) d first acc (0x5D :: rest) = .ok (.arr acc.reverse, rest) := by
  rw [items, skipSpace_cons rfl]
  rfl

theorem members_end (first : Bool) (acc : List (String × Json)) :
    members (fuel + 1) d first acc (0x7D :: rest) = .ok (.obj acc, rest) := by
  rw [members, skipSpace_cons rfl]
  rfl

section Items

variable {i : Item} (hstarts : Starts i.text) (hreads : Reads d i.text i.value)

include hstarts in
theorem skipSpace_item (more : List UInt8) :
    skipSpace (i.octets ++ more) = i.text ++ (i.back ++ more) := by
  rw [Spaced.octets, List.append_assoc, skipSpace_append i.spaces_front, List.append_assoc,
    (hstarts.append _).skipSpace]

include hstarts hreads in
theorem items_first (hmore : Delimited more) (hfuel : i.text.length ≤ fuel) (acc : List Json) :
    items (fuel + 1) d true acc (i.octets ++ more) = items fuel d false (i.value :: acc) more := by
  have hpos := hstarts.length_pos
  have hread := hreads fuel (i.back ++ more) hfuel (delimited_append i.spaces_back hmore)
  obtain ⟨k, rfl⟩ : ∃ k, fuel = k + 1 := ⟨fuel - 1, by omega⟩
  rw [items, skipSpace_item hstarts]
  obtain ⟨b, bs, htext, -, hend⟩ := hstarts
  rw [htext, List.cons_append] at hread ⊢
  simp only [hend, hread, Bool.false_eq_true, if_false, if_true]
  exact items_space i.spaces_back _ _ _

include hstarts hreads in
theorem items_next (hmore : Delimited more) (hfuel : i.text.length ≤ fuel) (acc : List Json) :
    items (fuel + 1) d false acc (0x2C :: (i.octets ++ more)) =
      items fuel d false (i.value :: acc) more := by
  have hpos := hstarts.length_pos
  have hread := hreads fuel (i.back ++ more) hfuel (delimited_append i.spaces_back hmore)
  have hskip := skipSpace_item hstarts more
  obtain ⟨k, rfl⟩ : ∃ k, fuel = k + 1 := ⟨fuel - 1, by omega⟩
  rw [items, skipSpace_cons rfl]
  obtain ⟨b, bs, htext, -, hend⟩ := hstarts
  rw [htext, List.cons_append] at hread hskip
  have hcomma : ((0x2C : UInt8) == 0x5D) = false := rfl
  simp only [hcomma, hskip, hend, hread, beq_self_eq_true, Bool.false_eq_true, if_false, if_true]
  exact items_space i.spaces_back _ _ _

end Items

theorem items_listed {is : List Item} (hstarts : ∀ i ∈ is, Starts i.text)
    (hreads : ∀ i ∈ is, Reads d i.text i.value) (fuel : Nat) (acc : List Json)
    (hfuel : ((is.map fun i => i.octets).flatMap (0x2C :: ·)).length < fuel) :
    items fuel d false acc ((is.map fun i => i.octets).flatMap (0x2C :: ·) ++ 0x5D :: rest) =
      .ok (.arr (acc.reverse ++ is.map Item.value), rest) := by
  induction is generalizing acc fuel with
  | nil =>
    obtain ⟨fuel, rfl⟩ : ∃ k, fuel = k + 1 := ⟨fuel - 1, by simp at hfuel; omega⟩
    exact (items_end false acc).trans (by simp)
  | cons i is ih =>
    obtain ⟨hi, his⟩ := List.forall_mem_cons.mp hstarts
    obtain ⟨hri, hris⟩ := List.forall_mem_cons.mp hreads
    have hmore := delimited_parts (.inl rfl) (is.map fun i => i.octets) rest
    have htext := i.length_text_le
    simp only [List.map_cons, List.flatMap_cons, List.length_append, List.length_cons] at hfuel
    obtain ⟨fuel, rfl⟩ : ∃ k, fuel = k + 1 := ⟨fuel - 1, by omega⟩
    rw [List.map_cons, List.flatMap_cons, List.cons_append, List.cons_append, List.append_assoc]
    refine (items_next hi hri hmore (by omega) acc).trans
      ((ih his hris fuel (i.value :: acc) (by omega)).trans ?_)
    simp

theorem reads_arr {is : List Item} (hspace : Spaces space) (hstarts : ∀ i ∈ is, Starts i.text)
    (hreads : ∀ i ∈ is, Reads d i.text i.value) :
    Reads (d + 1) (0x5B :: (listed space (is.map fun i => i.octets) ++ [0x5D]))
      (.arr (is.map Item.value)) := by
  intro fuel rest hfuel hrest
  rw [List.length_cons, List.length_append, List.length_singleton] at hfuel
  rw [List.cons_append, List.append_assoc, List.singleton_append]
  cases is with
  | nil =>
    obtain ⟨fuel, rfl⟩ : ∃ k, fuel = k + 2 := ⟨fuel - 2, by omega⟩
    exact (value_items _).trans ((items_space hspace _ _ _).trans (items_end true []))
  | cons i is =>
    obtain ⟨hi, his⟩ := List.forall_mem_cons.mp hstarts
    obtain ⟨hri, hris⟩ := List.forall_mem_cons.mp hreads
    have hmore := delimited_parts (.inl rfl) (is.map fun i => i.octets) rest
    have hpos := hi.length_pos
    have htext := i.length_text_le
    simp only [List.map_cons, listed, List.length_append] at hfuel
    obtain ⟨fuel, rfl⟩ : ∃ k, fuel = k + 2 := ⟨fuel - 2, by omega⟩
    rw [List.map_cons, listed, List.append_assoc]
    exact (value_items _).trans ((items_first hi hri hmore (by omega) []).trans
      (items_listed his hris fuel [i.value] (by omega)))

section Members

variable {m : Member} (hstarts : Starts m.item.text) (hreads : Reads d m.item.text m.item.value)

include hstarts hreads in
theorem member_octets (hmore : Delimited more) (hfuel : m.item.text.length ≤ fuel)
    (acc : List (String × Json)) :
    member (fuel + 1) d acc (0x22 :: (m.quoted ++ (m.gap ++ 0x3A :: (m.item.octets ++ more)))) =
      members fuel d false (insertMember m.key m.item.value acc) more := by
  have hpos := hstarts.length_pos
  have hread := hreads fuel (m.item.back ++ more) hfuel (delimited_append m.item.spaces_back hmore)
  have hkey : string (m.quoted ++ (m.gap ++ 0x3A :: (m.item.octets ++ more))) =
      .ok (m.key, m.gap ++ 0x3A :: (m.item.octets ++ more)) :=
    string_eq_ok_iff.mpr ⟨m.quoted, m.isQuoted, rfl⟩
  have hgap : skipSpace (m.gap ++ 0x3A :: (m.item.octets ++ more)) =
      0x3A :: (m.item.octets ++ more) := by
    rw [skipSpace_append m.spaces_gap, skipSpace_cons rfl]
  obtain ⟨k, rfl⟩ : ∃ k, fuel = k + 1 := ⟨fuel - 1, by omega⟩
  have hvalue : value (k + 1) d (m.item.octets ++ more) = .ok (m.item.value, m.item.back ++ more) := by
    rw [Spaced.octets, List.append_assoc, value_space m.item.spaces_front, List.append_assoc, hread]
  rw [member.eq_def]
  simp only [hkey, hgap, hvalue, beq_self_eq_true, if_true]
  exact members_space m.item.spaces_back _ _ _

theorem octets_append (more : List UInt8) : m.octets ++ more =
    m.front ++ 0x22 :: (m.quoted ++ (m.gap ++ 0x3A :: (m.item.octets ++ more))) := by
  simp [Member.octets]

include hstarts hreads in
theorem members_first (hmore : Delimited more) (hfuel : m.item.text.length ≤ fuel)
    (acc : List (String × Json)) :
    members (fuel + 2) d true acc (m.octets ++ more) =
      members fuel d false (insertMember m.key m.item.value acc) more := by
  rw [octets_append, members_space m.spaces_front, members, skipSpace_cons rfl]
  exact member_octets hstarts hreads hmore hfuel acc

include hstarts hreads in
theorem members_next (hmore : Delimited more) (hfuel : m.item.text.length ≤ fuel)
    (acc : List (String × Json)) :
    members (fuel + 2) d false acc (0x2C :: (m.octets ++ more)) =
      members fuel d false (insertMember m.key m.item.value acc) more := by
  rw [octets_append, members, skipSpace_cons rfl]
  simp only [skipSpace_append m.spaces_front, skipSpace_cons (b := 0x22) rfl]
  exact member_octets hstarts hreads hmore hfuel acc

end Members

theorem members_listed {ms : List Member} (hstarts : ∀ m ∈ ms, Starts m.item.text)
    (hreads : ∀ m ∈ ms, Reads d m.item.text m.item.value) (fuel : Nat) (acc : List (String × Json))
    (hfuel : ((ms.map Member.octets).flatMap (0x2C :: ·)).length < fuel) :
    members fuel d false acc ((ms.map Member.octets).flatMap (0x2C :: ·) ++ 0x7D :: rest) =
      .ok (.obj ((ms.map Member.entry).foldl (fun acc m => insertMember m.1 m.2 acc) acc), rest) := by
  induction ms generalizing acc fuel with
  | nil =>
    obtain ⟨fuel, rfl⟩ : ∃ k, fuel = k + 1 := ⟨fuel - 1, by simp at hfuel; omega⟩
    exact members_end false acc
  | cons m ms ih =>
    obtain ⟨hm, hms⟩ := List.forall_mem_cons.mp hstarts
    obtain ⟨hrm, hrms⟩ := List.forall_mem_cons.mp hreads
    have hmore := delimited_parts (.inr rfl) (ms.map Member.octets) rest
    have htext := m.length_text_lt
    simp only [List.map_cons, List.flatMap_cons, List.length_append, List.length_cons] at hfuel
    obtain ⟨fuel, rfl⟩ : ∃ k, fuel = k + 2 := ⟨fuel - 2, by omega⟩
    rw [List.map_cons, List.flatMap_cons, List.cons_append, List.cons_append, List.append_assoc]
    exact (members_next hm hrm hmore (by omega) acc).trans (ih hms hrms fuel _ (by omega))

theorem reads_obj {ms : List Member} (hspace : Spaces space) (hstarts : ∀ m ∈ ms, Starts m.item.text)
    (hreads : ∀ m ∈ ms, Reads d m.item.text m.item.value) :
    Reads (d + 1) (0x7B :: (listed space (ms.map Member.octets) ++ [0x7D]))
      (ofMembers (ms.map Member.entry)) := by
  intro fuel rest hfuel hrest
  rw [List.length_cons, List.length_append, List.length_singleton] at hfuel
  rw [List.cons_append, List.append_assoc, List.singleton_append]
  cases ms with
  | nil =>
    obtain ⟨fuel, rfl⟩ : ∃ k, fuel = k + 2 := ⟨fuel - 2, by omega⟩
    exact (value_members _).trans ((members_space hspace _ _ _).trans (members_end true []))
  | cons m ms =>
    obtain ⟨hm, hms⟩ := List.forall_mem_cons.mp hstarts
    obtain ⟨hrm, hrms⟩ := List.forall_mem_cons.mp hreads
    have hmore := delimited_parts (.inr rfl) (ms.map Member.octets) rest
    have htext := m.length_text_lt
    simp only [List.map_cons, listed, List.length_append] at hfuel
    obtain ⟨fuel, rfl⟩ : ∃ k, fuel = k + 3 := ⟨fuel - 3, by omega⟩
    rw [List.map_cons, listed, List.append_assoc]
    exact (value_members _).trans ((members_first hm hrm hmore (by omega) []).trans
      (members_listed hms hrms fuel _ (by omega)))

theorem Denotes.reads (h : Denotes d text v) : Reads d text v := by
  induction h with
  | null =>
    refine reads_of_succ (Denotes.null (d := 0)).starts fun fuel rest _ => ?_
    change value (fuel + 1) _ (0x6E :: 0x75 :: 0x6C :: 0x6C :: rest) = _
    rw [value, skipSpace_cons rfl]
    rfl
  | true =>
    refine reads_of_succ (Denotes.true (d := 0)).starts fun fuel rest _ => ?_
    change value (fuel + 1) _ (0x74 :: 0x72 :: 0x75 :: 0x65 :: rest) = _
    rw [value, skipSpace_cons rfl]
    rfl
  | false =>
    refine reads_of_succ (Denotes.false (d := 0)).starts fun fuel rest _ => ?_
    change value (fuel + 1) _ (0x66 :: 0x61 :: 0x6C :: 0x73 :: 0x65 :: rest) = _
    rw [value, skipSpace_cons rfl]
    rfl
  | num h =>
    refine reads_of_succ (Denotes.num (d := 0) h).starts fun fuel rest hrest => ?_
    rw [value_numeral _ hrest, h]
    rfl
  | @str _ quoted s h =>
    refine reads_of_succ (Denotes.str (d := 0) h).starts fun fuel rest _ => ?_
    have hstring : string (quoted ++ rest) = .ok (s, rest) := string_eq_ok_iff.mpr ⟨quoted, h, rfl⟩
    rw [List.cons_append, value, skipSpace_cons rfl]
    simp [isDigit, hstring]
  | arr hspace h ih => exact reads_arr hspace (fun i hi => (h i hi).starts) ih
  | obj hspace h ih => exact reads_obj hspace (fun m hm => (h m hm).starts) ih

/-! ## Nothing else is read

Each function of the reader has its own claim about the octets that it has passed over; `sound`
proves them together. -/

/-- The octets up to a closing bracket: parts behind a first one if some have been read before, and
parts from the first one on if not. -/
def listedFrom (first : Bool) (space : List UInt8) (parts : List (List UInt8)) : List UInt8 :=
  if first then listed space parts else space ++ parts.flatMap (0x2C :: ·)

/-- The octets are space, a text of the value, and the rest. -/
def TakesValue (d : Nat) (bytes : List UInt8) (v : Json) (rest : List UInt8) : Prop :=
  ∃ space text, Spaces space ∧ bytes = space ++ (text ++ rest) ∧ Denotes d text v

/-- The octets are items up to a closing bracket, and the rest. The value is the list of those read
before, the last one first, and of these. -/
def TakesItems (d : Nat) (first : Bool) (acc : List Json) (bytes : List UInt8) (v : Json)
    (rest : List UInt8) : Prop :=
  ∃ (space : List UInt8) (is : List Item), Spaces space ∧ (∀ i ∈ is, Denotes d i.text i.value) ∧
    bytes = listedFrom first space (is.map fun i => i.octets) ++ 0x5D :: rest ∧
    v = .arr (acc.reverse ++ is.map Item.value)

/-- The octets are members up to a closing brace, and the rest. The value is the record of those read
before with these inserted. -/
def TakesMembers (d : Nat) (first : Bool) (acc : List (String × Json)) (bytes : List UInt8) (v : Json)
    (rest : List UInt8) : Prop :=
  ∃ (space : List UInt8) (ms : List Member), Spaces space ∧
    (∀ m ∈ ms, Denotes d m.item.text m.item.value) ∧
    bytes = listedFrom first space (ms.map Member.octets) ++ 0x7D :: rest ∧
    v = .obj ((ms.map Member.entry).foldl (fun acc m => insertMember m.1 m.2 acc) acc)

/-- The same with at least one item. -/
def TakesItem (d : Nat) (acc : List Json) (bytes : List UInt8) (v : Json) (rest : List UInt8) : Prop :=
  ∃ (i : Item) (is : List Item), (∀ k ∈ i :: is, Denotes d k.text k.value) ∧
    bytes = i.octets ++ ((is.map fun i => i.octets).flatMap (0x2C :: ·) ++ 0x5D :: rest) ∧
    v = .arr (acc.reverse ++ (i :: is).map Item.value)

/-- The same with at least one member. -/
def TakesMember (d : Nat) (acc : List (String × Json)) (bytes : List UInt8) (v : Json)
    (rest : List UInt8) : Prop :=
  ∃ (m : Member) (ms : List Member), (∀ k ∈ m :: ms, Denotes d k.item.text k.item.value) ∧
    bytes = m.octets ++ ((ms.map Member.octets).flatMap (0x2C :: ·) ++ 0x7D :: rest) ∧
    v = .obj (((m :: ms).map Member.entry).foldl (fun acc m => insertMember m.1 m.2 acc) acc)

section Takes

variable {items : List Json} {members : List (String × Json)}

theorem takesItems_end {first : Bool} (hspace : Spaces space) :
    TakesItems d first items (space ++ 0x5D :: rest) (.arr items.reverse) rest := by
  refine ⟨space, [], hspace, List.forall_mem_nil _, ?_, by simp⟩
  cases first <;> simp [listedFrom, listed]

theorem TakesItem.first (h : TakesItem d items bytes v rest) : TakesItems d true items bytes v rest := by
  obtain ⟨i, is, his, rfl, rfl⟩ := h
  exact ⟨[], i :: is, spaces_nil, his, by simp [listedFrom, listed], rfl⟩

theorem TakesItem.next (h : TakesItem d items bytes v rest) (hspace : Spaces space) :
    TakesItems d false items (space ++ 0x2C :: bytes) v rest := by
  obtain ⟨i, is, his, rfl, rfl⟩ := h
  exact ⟨space, i :: is, hspace, his, by simp [listedFrom], rfl⟩

theorem takesMembers_end {first : Bool} (hspace : Spaces space) :
    TakesMembers d first members (space ++ 0x7D :: rest) (.obj members) rest := by
  refine ⟨space, [], hspace, List.forall_mem_nil _, ?_, rfl⟩
  cases first <;> simp [listedFrom, listed]

theorem TakesMember.behind_space (h : TakesMember d members bytes v rest) (hspace : Spaces space) :
    TakesMember d members (space ++ bytes) v rest := by
  obtain ⟨m, ms, hms, rfl, rfl⟩ := h
  refine ⟨{ m with front := space ++ m.front, spaces_front := hspace.append m.spaces_front }, ms,
    List.forall_mem_cons.mpr (List.forall_mem_cons.mp hms), ?_, rfl⟩
  simp [Member.octets]

theorem TakesMember.first (h : TakesMember d members bytes v rest) :
    TakesMembers d true members bytes v rest := by
  obtain ⟨m, ms, hms, rfl, rfl⟩ := h
  exact ⟨[], m :: ms, spaces_nil, hms, by simp [listedFrom, listed], rfl⟩

theorem TakesMember.next (h : TakesMember d members bytes v rest) (hspace : Spaces space) :
    TakesMembers d false members (space ++ 0x2C :: bytes) v rest := by
  obtain ⟨m, ms, hms, rfl, rfl⟩ := h
  exact ⟨space, m :: ms, hspace, hms, by simp [listedFrom], rfl⟩

end Takes

/-- Where the reader succeeds with this much fuel, it has taken what it returns. -/
structure Sound (fuel : Nat) : Prop where
  value : ∀ {d bytes v rest}, value fuel d bytes = .ok (v, rest) → TakesValue d bytes v rest
  items : ∀ {d first acc bytes v rest}, items fuel d first acc bytes = .ok (v, rest) →
    TakesItems d first acc bytes v rest
  members : ∀ {d first acc bytes v rest}, members fuel d first acc bytes = .ok (v, rest) →
    TakesMembers d first acc bytes v rest
  member : ∀ {d acc bytes v rest}, member fuel d acc bytes = .ok (v, rest) →
    TakesMember d acc bytes v rest

theorem literal_sound {letters behind : List UInt8} (h : literal letters bytes = .ok behind) :
    bytes = letters ++ behind := by
  induction letters generalizing bytes with
  | nil => exact Except.ok.inj h
  | cons e letters ih =>
    cases bytes with
    | nil => cases h
    | cons b bytes =>
      rw [literal] at h
      split at h
      · next hb => rw [beq_iff_eq.mp hb, ih h, List.cons_append]
      · cases h

theorem word_sound {w : Json} {letters : List UInt8} (h : word w letters bytes = .ok (v, rest)) :
    v = w ∧ bytes = letters ++ rest := by
  unfold word at h
  split at h
  · next hliteral =>
    obtain ⟨rfl, rfl⟩ := Prod.mk.inj (Except.ok.inj h)
    exact ⟨rfl, literal_sound hliteral⟩
  · cases h

namespace Sound

theorem value_step (hs : Sound fuel) (h : Json.value (fuel + 1) d bytes = .ok (v, rest)) :
    TakesValue d bytes v rest := by
  rw [Json.value] at h
  split at h
  · cases h
  · next b behind hskip =>
    obtain ⟨space, hspace, rfl⟩ := exists_space hskip
    -- It is enough to find a text behind the space.
    suffices htext : ∃ text, b :: behind = text ++ rest ∧ Denotes d text v by
      obtain ⟨text, heq, hdenotes⟩ := htext
      exact ⟨space, text, hspace, by rw [heq], hdenotes⟩
    split_ifs at h with hn ht hf hminus hdigit hquote hlist hrecord
    · obtain ⟨rfl, rfl⟩ := word_sound h
      exact ⟨_, by rw [beq_iff_eq.mp hn]; rfl, .null⟩
    · obtain ⟨rfl, rfl⟩ := word_sound h
      exact ⟨_, by rw [beq_iff_eq.mp ht]; rfl, .true⟩
    · obtain ⟨rfl, rfl⟩ := word_sound h
      exact ⟨_, by rw [beq_iff_eq.mp hf]; rfl, .false⟩
    · obtain ⟨x, m, hnegative, rfl, rfl, hvalue⟩ := number_sound h
      refine ⟨x.octets, ?_, .num hvalue⟩
      rw [beq_iff_eq.mp hminus, Numeral.octets, hnegative]
      rfl
    · obtain ⟨x, m, hnegative, heq, rfl, hvalue⟩ := number_sound h
      refine ⟨x.octets, ?_, .num hvalue⟩
      rw [heq, Numeral.octets, hnegative]
      rfl
    · split at h
      · next hstring =>
        obtain ⟨rfl, rfl⟩ := Prod.mk.inj (Except.ok.inj h)
        obtain ⟨quoted, hquoted, rfl⟩ := string_eq_ok_iff.mp hstring
        exact ⟨_, by rw [beq_iff_eq.mp hquote]; rfl, .str hquoted⟩
      · cases h
    · split at h
      · cases h
      · obtain ⟨inner, is, hinner, his, rfl, rfl⟩ := hs.items h
        refine ⟨_, ?_, .arr hinner his⟩
        rw [beq_iff_eq.mp hlist]
        simp [listedFrom]
    · split at h
      · cases h
      · obtain ⟨inner, ms, hinner, hms, rfl, rfl⟩ := hs.members h
        refine ⟨_, ?_, .obj hinner hms⟩
        rw [beq_iff_eq.mp hrecord]
        simp [listedFrom]
    · cases h

theorem takesItem (hs : Sound fuel) {w : Json} {acc : List Json} {behind : List UInt8}
    (hvalue : Json.value fuel d bytes = .ok (w, behind))
    (hitems : Json.items fuel d false (w :: acc) behind = .ok (v, rest)) (hspace : Spaces space) :
    TakesItem d acc (space ++ bytes) v rest := by
  obtain ⟨front, text, hfront, rfl, hdenotes⟩ := hs.value hvalue
  obtain ⟨back, is, hback, his, rfl, rfl⟩ := hs.items hitems
  refine ⟨⟨⟨space ++ front, text, back, hspace.append hfront, hback⟩, w⟩, is,
    List.forall_mem_cons.mpr ⟨hdenotes, his⟩, ?_, by simp⟩
  simp [listedFrom, Spaced.octets]

theorem items_step (hs : Sound fuel) {first : Bool} {acc : List Json}
    (h : Json.items (fuel + 1) d first acc bytes = .ok (v, rest)) :
    TakesItems d first acc bytes v rest := by
  rw [Json.items] at h
  split at h
  · cases h
  · next b behind hskip =>
    obtain ⟨space, hspace, rfl⟩ := exists_space hskip
    split_ifs at h with hend hfirst hcomma
    · obtain ⟨rfl, rfl⟩ := Prod.mk.inj (Except.ok.inj h)
      rw [beq_iff_eq.mp hend]
      exact takesItems_end hspace
    · split at h
      · next hvalue =>
        rw [hfirst]
        exact (hs.takesItem hvalue h hspace).first
      · cases h
    · split at h
      · cases h
      · next c behind' hskip' =>
        obtain ⟨front, hfront, rfl⟩ := exists_space hskip'
        split_ifs at h
        · cases h
        · split at h
          · next hvalue =>
            rw [beq_iff_eq.mp hcomma, Bool.eq_false_iff.mpr hfirst]
            exact (hs.takesItem hvalue h hfront).next hspace
          · cases h
    · cases h

theorem members_step (hs : Sound fuel) {first : Bool} {acc : List (String × Json)}
    (h : Json.members (fuel + 1) d first acc bytes = .ok (v, rest)) :
    TakesMembers d first acc bytes v rest := by
  rw [Json.members] at h
  split at h
  · cases h
  · next b behind hskip =>
    obtain ⟨space, hspace, rfl⟩ := exists_space hskip
    split_ifs at h with hend hfirst hcomma
    · obtain ⟨rfl, rfl⟩ := Prod.mk.inj (Except.ok.inj h)
      rw [beq_iff_eq.mp hend]
      exact takesMembers_end hspace
    · rw [hfirst]
      exact ((hs.member h).behind_space hspace).first
    · split at h
      · cases h
      · next c behind' hskip' =>
        obtain ⟨front, hfront, rfl⟩ := exists_space hskip'
        split_ifs at h
        · cases h
        · rw [beq_iff_eq.mp hcomma, Bool.eq_false_iff.mpr hfirst]
          exact ((hs.member h).behind_space hfront).next hspace
    · cases h

theorem member_step (hs : Sound fuel) {acc : List (String × Json)}
    (h : Json.member (fuel + 1) d acc bytes = .ok (v, rest)) : TakesMember d acc bytes v rest := by
  rw [Json.member.eq_def] at h
  dsimp only at h
  split at h
  · cases h
  · next b behind =>
    split at h
    · next hquote =>
      split at h
      · cases h
      · next key afterKey hstring =>
        obtain ⟨quoted, hquoted, rfl⟩ := string_eq_ok_iff.mp hstring
        split at h
        · cases h
        · next c afterColon hskip =>
          obtain ⟨gap, hgap, rfl⟩ := exists_space hskip
          split at h
          · next hcolon =>
            split at h
            · next w afterValue hvalue =>
              obtain ⟨front, text, hfront, rfl, hdenotes⟩ := hs.value hvalue
              obtain ⟨back, ms, hback, hms, rfl, rfl⟩ := hs.members h
              refine ⟨⟨key, quoted, [], gap, ⟨⟨front, text, back, hfront, hback⟩, w⟩, hquoted,
                spaces_nil, hgap⟩, ms, List.forall_mem_cons.mpr ⟨hdenotes, hms⟩, ?_, rfl⟩
              rw [beq_iff_eq.mp hquote, beq_iff_eq.mp hcolon]
              simp [Member.octets, Spaced.octets, listedFrom]
            · cases h
          · cases h
    · cases h

end Sound

theorem sound (fuel : Nat) : Sound fuel := by
  induction fuel with
  | zero =>
    refine ⟨fun h => ?_, fun h => ?_, fun h => ?_, fun h => ?_⟩
    · rw [value] at h
      cases h
    · rw [items] at h
      cases h
    · rw [members] at h
      cases h
    · rw [member] at h
      cases h
  | succ fuel ih => exact ⟨ih.value_step, ih.items_step, ih.members_step, ih.member_step⟩

/-! ## Whole texts -/

theorem spaces_delimited (h : Spaces space) : Delimited space := by
  have hnil : Delimited [] := by simp [Delimited]
  simpa using delimited_append h hnil

theorem parse_eq_ok_iff {octets : List UInt8} : parse octets = .ok v ↔ IsText octets v := by
  constructor
  · intro h
    rw [parse] at h
    split at h
    · cases h
    · next w rest hvalue =>
      split at h
      · next hskip =>
        obtain rfl := Except.ok.inj h
        obtain ⟨space, text, hspace, hoctets, hdenotes⟩ := (sound _).value hvalue
        exact ⟨⟨space, text, rest, hspace, skipSpace_eq_nil_iff.mp hskip⟩, hoctets, hdenotes⟩
      · cases h
  · rintro ⟨s, rfl, hdenotes⟩
    have hfuel : s.text.length ≤ 4 * s.octets.length + 3 + 1 := by
      have hle := s.length_text_le
      omega
    have hread := hdenotes.reads _ s.back hfuel (spaces_delimited s.spaces_back)
    have hvalue : value (fuelFor s.octets.length) maxDepth s.octets = .ok (v, s.back) := by
      rw [← value_space s.spaces_front] at hread
      exact hread
    rw [parse, hvalue]
    dsimp only
    rw [skipSpace_eq_nil_iff.mpr s.spaces_back]

theorem IsText.unique {octets : List UInt8} {w : Json} (h : IsText octets v) (h' : IsText octets w) :
    v = w :=
  Except.ok.inj ((parse_eq_ok_iff.mpr h).symm.trans (parse_eq_ok_iff.mpr h'))

/-- The octets are the text of an object with these members, in the order in which they are written. -/
def ObjectText (octets : List UInt8) (written : List (String × Json)) : Prop :=
  ∃ (s : Spaced) (space : List UInt8) (ms : List Member), octets = s.octets ∧ Spaces space ∧
    s.text = 0x7B :: (listed space (ms.map Member.octets) ++ [0x7D]) ∧
    (∀ m ∈ ms, Denotes (maxDepth - 1) m.item.text m.item.value) ∧ written = ms.map Member.entry

variable {octets : List UInt8} {written : List (String × Json)}

theorem ObjectText.isText (h : ObjectText octets written) : IsText octets (ofMembers written) := by
  obtain ⟨s, space, ms, hoctets, hspace, htext, hms, rfl⟩ := h
  refine ⟨s, hoctets, ?_⟩
  rw [htext]
  exact .obj (d := maxDepth - 1) hspace hms

theorem exists_objectText {ms : List (String × Json)} (h : IsText octets (.obj ms)) :
    ∃ written, ObjectText octets written := by
  obtain ⟨s, rfl, hdenotes⟩ := h
  generalize hd : maxDepth = depth at hdenotes
  generalize hv : Json.obj ms = v at hdenotes
  generalize ht : s.text = text at hdenotes
  cases hdenotes with
  | @obj d space members hspace hms =>
    refine ⟨members.map Member.entry, s, space, members, rfl, hspace, ht, ?_, rfl⟩
    rw [hd]
    exact hms
  | _ => cases hv

end LanguageClient.Json
