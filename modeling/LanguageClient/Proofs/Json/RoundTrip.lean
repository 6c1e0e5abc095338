import Mathlib.Data.String.Basic
import LanguageClient.Proofs.Json.Reader
import LanguageClient.Proofs.Json.Scalars

/-!
# Values come back

`Proper d v` says that `v` is a value that some text denotes within a nesting of `d` containers. Every
text denotes such a value (`Denotes.proper`, by induction on the text), and every such value has its
compact text (`Proper.denotes`, by induction on the value), so that by `parse_eq_ok_iff` nothing else is
read and everything that is written comes back.

A record is written in an order of its own, so `denotes_renderRecord` is about members in any order; they
come back as inserting them one by one leaves them.
-/

namespace LanguageClient.Json

open LanguageClient.Text

/-! ## Members -/

/-- Members in the order of their keys, each key once. -/
def Sorted (ms : List (String × Json)) : Prop := ms.Pairwise fun a b => a.1 < b.1

variable {ms acc : List (String × Json)}

theorem mem_insertMember {key : String} {v : Json} {m : String × Json}
    (h : m ∈ insertMember key v ms) : m = (key, v) ∨ m ∈ ms := by
  induction ms with
  | nil => exact .inl (List.mem_singleton.mp h)
  | cons n ms ih =>
    obtain ⟨k, w⟩ := n
    rw [insertMember] at h
    split at h
    · rcases List.mem_cons.mp h with hm | hm
      · exact .inl hm
      · exact .inr (List.mem_cons_of_mem _ hm)
    · split at h
      · exact List.mem_cons.mp h
      · rcases List.mem_cons.mp h with hm | hm
        · exact .inr (hm ▸ List.mem_cons_self)
        · exact (ih hm).imp_right (List.mem_cons_of_mem _)

theorem sorted_insertMember (h : Sorted ms) (key : String) (v : Json) :
    Sorted (insertMember key v ms) := by
  induction ms with
  | nil => exact List.pairwise_singleton ..
  | cons n ms ih =>
    obtain ⟨k, w⟩ := n
    obtain ⟨hfirst, hrest⟩ := List.pairwise_cons.mp h
    rw [insertMember]
    split
    · next heq =>
      subst heq
      exact List.pairwise_cons.mpr ⟨hfirst, hrest⟩
    · next hne =>
      split
      · next hlt =>
        refine List.pairwise_cons.mpr ⟨fun m hm => ?_, h⟩
        rcases List.mem_cons.mp hm with rfl | hm
        · exact hlt
        · exact hlt.trans (hfirst m hm)
      · next hlt =>
        have hgt : k < key := lt_of_le_of_ne (not_lt.mp hlt) (Ne.symm hne)
        refine List.pairwise_cons.mpr ⟨fun m hm => ?_, ih hrest⟩
        rcases mem_insertMember hm with rfl | hm
        · exact hgt
        · exact hfirst m hm

theorem mem_foldl_insertMember {m : String × Json}
    (h : m ∈ ms.foldl (fun acc m => insertMember m.1 m.2 acc) acc) : m ∈ acc ∨ m ∈ ms := by
  induction ms generalizing acc with
  | nil => exact .inl h
  | cons n ms ih =>
    rcases ih h with hacc | hms
    · rcases mem_insertMember hacc with rfl | hacc
      · exact .inr List.mem_cons_self
      · exact .inl hacc
    · exact .inr (List.mem_cons_of_mem _ hms)

theorem sorted_foldl_insertMember (h : Sorted acc) (ms : List (String × Json)) :
    Sorted (ms.foldl (fun acc m => insertMember m.1 m.2 acc) acc) := by
  induction ms generalizing acc with
  | nil => exact h
  | cons m ms ih => exact ih (sorted_insertMember h m.1 m.2)

theorem insertMember_last {key : String} {v : Json} (h : ∀ m ∈ ms, m.1 < key) :
    insertMember key v ms = ms ++ [(key, v)] := by
  induction ms with
  | nil => rfl
  | cons n ms ih =>
    obtain ⟨k, w⟩ := n
    obtain ⟨hfirst, hrest⟩ := List.forall_mem_cons.mp h
    have hlt : k < key := hfirst
    rw [insertMember, if_neg hlt.ne', if_neg hlt.not_gt, ih hrest]
    rfl

theorem foldl_insertMember (h : Sorted (acc ++ ms)) :
    ms.foldl (fun acc m => insertMember m.1 m.2 acc) acc = acc ++ ms := by
  induction ms generalizing acc with
  | nil => simp
  | cons m ms ih =>
    have hlast : ∀ n ∈ acc, n.1 < m.1 := fun n hn =>
      (List.pairwise_append.mp h).2.2 n hn m List.mem_cons_self
    rw [List.foldl_cons, insertMember_last hlast, ih (by simpa using h), List.append_assoc]
    rfl

/-! ## Proper values -/

/-- A value that some text denotes, with containers nested at most `d` deep. -/
inductive Proper : Nat → Json → Prop where
  | null {d : Nat} : Proper d .null
  | bool {d : Nat} (b : Bool) : Proper d (.bool b)
  | num {d : Nat} {n : Number} (h : n.Proper) : Proper d (.num n)
  | str {d : Nat} (s : String) : Proper d (.str s)
  | arr {d : Nat} {items : List Json} (h : ∀ v ∈ items, Proper d v) : Proper (d + 1) (.arr items)
  | obj {d : Nat} {ms : List (String × Json)} (h : ∀ m ∈ ms, Proper d m.2) (hsorted : Sorted ms) :
      Proper (d + 1) (.obj ms)

variable {d : Nat} {v : Json} {text : List UInt8}

theorem proper_ofMembers (h : ∀ m ∈ ms, Proper d m.2) :
    Proper (d + 1) (ofMembers ms) := by
  refine .obj (fun m hm => ?_) (sorted_foldl_insertMember .nil ms)
  rcases mem_foldl_insertMember hm with hnil | hms
  · cases hnil
  · exact h m hms

theorem Denotes.proper (h : Denotes d text v) : Proper d v := by
  induction h with
  | null => exact .null
  | true => exact .bool _
  | false => exact .bool _
  | num hx => exact .num (Numeral.proper hx)
  | str => exact .str _
  | arr _ _ ih => exact .arr (List.forall_mem_map.mpr ih)
  | obj _ _ ih => exact proper_ofMembers (List.forall_mem_map.mpr ih)

theorem IsText.proper (h : IsText text v) : Proper maxDepth v := by
  obtain ⟨s, -, hdenotes⟩ := h
  exact hdenotes.proper

/-! ## Values come back -/

def Item.bare (v : Json) : Item :=
  ⟨⟨[], Utf8.encode (renderChars v), [], spaces_nil, spaces_nil⟩, v⟩

def Member.bare (m : String × Json) : Member where
  key := m.1
  quoted := Utf8.encode (m.1.toList.flatMap escapeChar) ++ [0x22]
  front := []
  gap := []
  item := .bare m.2
  isQuoted := quoted_escaped m.1.toList
  spaces_front := spaces_nil
  spaces_gap := spaces_nil

theorem Item.octets_bare (v : Json) : (Item.bare v).octets = Utf8.encode (renderChars v) := by
  simp [Item.bare, Spaced.octets]

theorem Member.octets_bare (key : String) (v : Json) :
    (Member.bare (key, v)).octets = Utf8.encode (renderString key ++ ':' :: renderChars v) := by
  have hcolon : Utf8.encodeChar ':' = [0x3A] := rfl
  rw [Utf8.encode_append, encode_cons, encode_renderString, hcolon]
  simp [Member.octets, Member.bare, Item.octets_bare]

theorem encodeChar_comma : Utf8.encodeChar ',' = [0x2C] := rfl

theorem encode_renderMoreItems (vs : List Json) :
    Utf8.encode (renderMoreItems vs) =
      ((vs.map Item.bare).map fun i => i.octets).flatMap (0x2C :: ·) ++ [0x5D] := by
  induction vs with
  | nil => rfl
  | cons v vs ih =>
    rw [renderMoreItems, encode_cons, encodeChar_comma, Utf8.encode_append, ih, ← Item.octets_bare]
    simp

theorem encode_renderItems (vs : List Json) :
    Utf8.encode (renderItems vs) = listed [] ((vs.map Item.bare).map fun i => i.octets) ++ [0x5D] := by
  cases vs with
  | nil => rfl
  | cons v vs =>
    rw [renderItems, Utf8.encode_append, encode_renderMoreItems, ← Item.octets_bare]
    simp [listed]

theorem encode_renderMoreMembers (ms : List (String × Json)) :
    Utf8.encode (renderMoreMembers ms) =
      ((ms.map Member.bare).map Member.octets).flatMap (0x2C :: ·) ++ [0x7D] := by
  induction ms with
  | nil => rfl
  | cons m ms ih =>
    obtain ⟨key, v⟩ := m
    rw [renderMoreMembers, encode_cons, encodeChar_comma, ← List.cons_append, ← List.append_assoc,
      Utf8.encode_append, ih, ← Member.octets_bare]
    simp

theorem encode_renderMembers (ms : List (String × Json)) :
    Utf8.encode (renderMembers ms) = listed [] ((ms.map Member.bare).map Member.octets) ++ [0x7D] := by
  rcases ms with - | ⟨⟨key, v⟩, ms⟩
  · rfl
  · rw [renderMembers, ← List.cons_append, ← List.append_assoc, Utf8.encode_append,
      encode_renderMoreMembers, ← Member.octets_bare]
    simp [listed]

theorem entries_bare (ms : List (String × Json)) : (ms.map Member.bare).map Member.entry = ms := by
  rw [List.map_map]
  exact List.map_id ms

theorem denotes_renderRecord (h : ∀ m ∈ ms, Denotes d (Utf8.encode (renderChars m.2)) m.2) :
    Denotes (d + 1) (Utf8.encode (renderRecord ms)) (ofMembers ms) := by
  have hdenotes : Denotes (d + 1) _ (ofMembers ((ms.map Member.bare).map Member.entry)) :=
    .obj spaces_nil (List.forall_mem_map.mpr h)
  rw [entries_bare, ← encode_renderMembers] at hdenotes
  exact hdenotes

theorem Proper.denotes (h : Proper d v) : Denotes d (Utf8.encode (renderChars v)) v := by
  induction h with
  | null => exact .null
  | bool b => cases b <;> [exact .false; exact .true]
  | num hn =>
    obtain ⟨x, htext, hvalue⟩ := exists_renderNumber hn
    rw [renderChars, ← htext]
    exact .num hvalue
  | str s =>
    rw [renderChars, encode_renderString]
    exact .str (quoted_escaped s.toList)
  | @arr d vs h ih =>
    have hdenotes : Denotes (d + 1) _ (.arr ((vs.map Item.bare).map Item.value)) :=
      .arr spaces_nil (List.forall_mem_map.mpr ih)
    have hvalues : (vs.map Item.bare).map Item.value = vs := by
      rw [List.map_map]
      exact List.map_id vs
    rw [hvalues, ← encode_renderItems] at hdenotes
    exact hdenotes
  | obj h hsorted ih =>
    -- The members are in order already, so inserting them one by one leaves them as they are.
    have hdenotes := denotes_renderRecord ih
    rw [ofMembers, foldl_insertMember (by simpa using hsorted), List.nil_append] at hdenotes
    exact hdenotes

theorem isText_renderChars (h : Proper maxDepth v) : IsText (Utf8.encode (renderChars v)) v :=
  ⟨(Item.bare v).toSpaced, (Item.octets_bare v).symm, h.denotes⟩

theorem objectText_renderRecord (h : ∀ m ∈ ms, Proper (maxDepth - 1) m.2) :
    ObjectText (Utf8.encode (renderRecord ms)) ms := by
  refine ⟨⟨[], Utf8.encode (renderRecord ms), [], spaces_nil, spaces_nil⟩, [], ms.map Member.bare, ?_,
    spaces_nil, ?_, ?_, (entries_bare ms).symm⟩
  · simp [Spaced.octets]
  · rw [← encode_renderMembers]
    rfl
  · exact List.forall_mem_map.mpr fun m hm => (h m hm).denotes

end LanguageClient.Json
