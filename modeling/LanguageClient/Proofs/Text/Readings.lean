import LanguageClient.Proofs.Text
import LanguageClient.Text.Ascii
import Mathlib.Data.List.DropRight

/-!
# What is read was written

`Proofs/Text.lean` follows texts and numbers to the wire and back. This file goes the other way:
whatever a reader takes has the form that it takes it for. Octets that can be decoded are the octets
of the text that they are decoded into (`decode_eq_ok_iff`), a numeral that can be read is a run of
digits behind at most one plus sign (`readNumeral_eq_some_iff`), and the blanks at the two ends of a
text can be cut off in either order (`trimFront_trimBack`).
-/

namespace LanguageClient.Text

/-! ## UTF-8 -/

namespace Utf8

variable {cs : List Char} {a b : UInt8} {bytes : List UInt8} {rest : Except Fault (List Char)}

theorem consChar_eq_ok {c : Char} :
    consChar c rest = .ok cs ↔ ∃ ds, rest = .ok ds ∧ cs = c :: ds := by
  cases rest with
  | error f => simp [consChar]
  | ok ds => simp [consChar, eq_comm]

/-- Codes that are no surrogates and not beyond the last plane are the codes of characters. -/
theorem toNat_ofNat_of_valid {n : Nat} (h : n < 0xD800 ∨ 0xDFFF < n ∧ n < 0x110000) :
    (Char.ofNat n).toNat = n := by
  have hvalid : n.isValidChar := h
  rw [Char.ofNat, dif_pos hvalid]
  rfl

theorem ofNat_of_toNat {n : Nat} (h : n = a.toNat) : UInt8.ofNat n = a := by
  rw [h, UInt8.ofNat_toNat]

theorem encodeChar_one (ha : a < 0x80) : encodeChar (Char.ofNat a.toNat) = [a] := by
  simp only [UInt8.lt_iff_toNat_lt, UInt8.toNat_ofNat] at ha
  have hcode := toNat_ofNat_of_valid (n := a.toNat) (by omega)
  simp only [encodeChar, hcode]
  rw [if_pos (by omega), UInt8.ofNat_toNat]

theorem encodeChar_two (ha : 0xC2 ≤ a ∧ a ≤ 0xDF) (hb : isTail b = true) :
    encodeChar (charOfTwo a b) = [a, b] := by
  simp only [isTail, UInt8.le_iff_toNat_le, Bool.and_eq_true, decide_eq_true_eq,
    UInt8.toNat_ofNat] at ha hb
  have hcode := toNat_ofNat_of_valid (n := (a.toNat - 0xC0) * 64 + (b.toNat - 0x80)) (by omega)
  simp only [encodeChar, charOfTwo, hcode]
  rw [if_neg (by omega), if_pos (by omega), ofNat_of_toNat (a := a) (by omega),
    ofNat_of_toNat (a := b) (by omega)]

theorem encodeChar_three {c : UInt8} (ha : 0xE0 ≤ a ∧ a ≤ 0xEF) (hb : isSecondOfThree a b = true)
    (hc : isTail c = true) :
    encodeChar (charOfThree a b c) = [a, b, c] := by
  have hsecond := isSecondOfThree_iff.mp hb
  simp only [isTail, UInt8.le_iff_toNat_le, Bool.and_eq_true, decide_eq_true_eq,
    UInt8.toNat_ofNat] at ha hc
  have hcode := toNat_ofNat_of_valid
    (n := (a.toNat - 0xE0) * 4096 + (b.toNat - 0x80) * 64 + (c.toNat - 0x80)) (by omega)
  simp only [encodeChar, charOfThree, hcode]
  rw [if_neg (by omega), if_neg (by omega), if_pos (by omega), ofNat_of_toNat (a := a) (by omega),
    ofNat_of_toNat (a := b) (by omega), ofNat_of_toNat (a := c) (by omega)]

theorem encodeChar_four {c d : UInt8} (ha : 0xF0 ≤ a ∧ a ≤ 0xF4) (hb : isSecondOfFour a b = true)
    (hc : isTail c = true) (hd : isTail d = true) :
    encodeChar (charOfFour a b c d) = [a, b, c, d] := by
  have hsecond := isSecondOfFour_iff.mp hb
  simp only [isTail, UInt8.le_iff_toNat_le, Bool.and_eq_true, decide_eq_true_eq,
    UInt8.toNat_ofNat] at ha hc hd
  have hcode := toNat_ofNat_of_valid
    (n := (a.toNat - 0xF0) * 262144 + (b.toNat - 0x80) * 4096 + (c.toNat - 0x80) * 64 +
      (d.toNat - 0x80)) (by omega)
  simp only [encodeChar, charOfFour, hcode]
  rw [if_neg (by omega), if_neg (by omega), if_neg (by omega), ofNat_of_toNat (a := a) (by omega),
    ofNat_of_toNat (a := b) (by omega), ofNat_of_toNat (a := c) (by omega),
    ofNat_of_toNat (a := d) (by omega)]

theorem encode_consChar {c : Char} (h : consChar c rest = .ok cs)
    (hrest : ∀ {ds}, rest = .ok ds → encode ds = bytes) : encode cs = encodeChar c ++ bytes := by
  obtain ⟨ds, hds, rfl⟩ := consChar_eq_ok.mp h
  rw [encode, List.flatMap_cons, ← hrest hds, encode]

/-- What is decoded is what the text is encoded as. The cases are those of the decoder, which goes on
only behind a well-formed sequence. -/
theorem encode_of_decodeFrom {i : Nat} (h : decodeFrom i bytes = .ok cs) : encode cs = bytes := by
  fun_induction decodeFrom i bytes generalizing cs with
  | case1 i =>
    obtain rfl := Except.ok.inj h
    rfl
  | case2 i a rest ha ih =>
    rw [encode_consChar h ih, encodeChar_one ha]
    rfl
  | case4 i a _ ha b rest hb ih =>
    have ha : 0xC2 ≤ a ∧ a ≤ 0xDF := by simpa using ha
    rw [encode_consChar h ih, encodeChar_two ha hb]
    rfl
  | case8 i a _ _ ha b hb c rest hc ih =>
    have ha : 0xE0 ≤ a ∧ a ≤ 0xEF := by simpa using ha
    rw [encode_consChar h ih, encodeChar_three ha hb hc]
    rfl
  | case14 i a _ _ _ ha b hb c hc d rest hd ih =>
    have ha : 0xF0 ≤ a ∧ a ≤ 0xF4 := by simpa using ha
    rw [encode_consChar h ih, encodeChar_four ha hb hc hd]
    rfl
  | _ => cases h

theorem decode_eq_ok_iff :
    decode bytes = .ok cs ↔ encode cs = bytes := by
  constructor
  · exact encode_of_decodeFrom
  · rintro rfl
    exact decode_encode cs

theorem encode_inj {ds : List Char} (h : encode cs = encode ds) : cs = ds := by
  have hdecode := decode_eq_ok_iff.mpr h
  rw [decode_encode] at hdecode
  exact (Except.ok.inj hdecode).symm

end Utf8

/-! ## Numerals -/

/-- An unsigned decimal numeral: digits, and at most one plus sign in front of them. -/
def IsNumeral (cs : List Char) (n : Nat) : Prop :=
  ∃ digits, (cs = digits ∨ cs = '+' :: digits) ∧ digits ≠ [] ∧ (∀ c ∈ digits, c.isDigit = true) ∧
    Nat.ofDigitChars 10 digits 0 = n

variable {c : Char} {cs front rest : List Char} {n : Nat}

theorem digitValue_eq_some {d : Nat} :
    digitValue c = some d ↔ c.isDigit = true ∧ c.toNat - 48 = d := by
  have hiff : ('0' ≤ c && c ≤ '9') = c.isDigit := by
    simp [Char.isDigit, Char.le_def, GE.ge]
  rw [digitValue, hiff]
  split <;> simp_all

theorem digitsValue_eq_some {acc : Nat} :
    digitsValue acc cs = some n ↔
      (∀ c ∈ cs, c.isDigit = true) ∧ Nat.ofDigitChars 10 cs acc = n := by
  induction cs generalizing acc with
  | nil => simp [digitsValue]
  | cons c cs ih =>
    rw [digitsValue, Nat.ofDigitChars_cons, List.forall_mem_cons]
    cases hc : digitValue c with
    | none =>
      have hdigit : c.isDigit ≠ true := by
        intro hdigit
        rw [digitValue_eq_some.mpr ⟨hdigit, rfl⟩] at hc
        cases hc
      simp [hdigit]
    | some d =>
      obtain ⟨hdigit, rfl⟩ := digitValue_eq_some.mp hc
      simp only [ih, hdigit, true_and]
      rfl

theorem filter_digitsValue {limit : Nat} {digits : List Char} :
    (digitsValue 0 digits).filter (· ≤ limit) = some n ↔
      ((∀ c ∈ digits, c.isDigit = true) ∧ Nat.ofDigitChars 10 digits 0 = n) ∧ n ≤ limit := by
  simp [Option.filter_eq_some_iff, digitsValue_eq_some]

theorem readNumeral_eq_some_iff {limit : Nat} :
    readNumeral limit cs = some n ↔ IsNumeral cs n ∧ n ≤ limit := by
  cases cs with
  | nil => simp [readNumeral, IsNumeral]
  | cons c rest =>
    by_cases hc : c = '+'
    · subst hc
      cases rest with
      | nil => simp [readNumeral, IsNumeral, show ('+').isDigit = false from rfl]
      | cons d rest =>
        change (digitsValue 0 (d :: rest)).filter (· ≤ limit) = some n ↔ _
        rw [filter_digitsValue]
        simp [IsNumeral, show ('+').isDigit = false from rfl]
    · have hread : readNumeral limit (c :: rest) =
          (digitsValue 0 (c :: rest)).filter (· ≤ limit) := by
        unfold readNumeral
        split
        · next heq => exact absurd (List.cons.inj heq).1 hc
        · rfl
      rw [hread, filter_digitsValue]
      simp [IsNumeral, hc]

instance (cs : List Char) (n : Nat) : Decidable (IsNumeral cs n) :=
  decidable_of_iff (readNumeral n cs = some n) (by rw [readNumeral_eq_some_iff]; simp)

/-! ## Blanks -/

theorem trim_eq_nil_iff : trim cs = [] ↔ ∀ c ∈ cs, isBlank c = true := by
  change (cs.dropWhile isBlank).rdropWhile isBlank = [] ↔ _
  rw [List.rdropWhile_eq_nil_iff]
  constructor
  · intro h
    have hnone : cs.dropWhile isBlank = [] := by
      cases hdrop : cs.dropWhile isBlank with
      | nil => rfl
      | cons c rest =>
        have hc := List.head?_dropWhile_not isBlank cs
        rw [hdrop] at h hc
        simp [h c List.mem_cons_self] at hc
    exact List.dropWhile_eq_nil_iff.mp hnone
  · intro h c hc
    exact h c ((List.dropWhile_suffix isBlank).subset hc)

theorem trimFront_append (hc : isBlank c = false) :
    trimFront (front ++ c :: rest) = trimFront front ++ c :: rest := by
  induction front with
  | nil => simp [trimFront, hc]
  | cons b front ih =>
    by_cases hb : isBlank b = true
    · simpa [trimFront, hb] using ih
    · simp [trimFront, hb]

theorem trimBack_append (hc : isBlank c = false) :
    trimBack (front ++ c :: rest) = front ++ c :: trimBack rest := by
  have h : trimFront (rest.reverse ++ c :: front.reverse) =
      trimFront rest.reverse ++ c :: front.reverse := trimFront_append hc
  rw [trimBack, List.reverse_append, List.reverse_cons, List.append_assoc, List.singleton_append]
  exact (congrArg List.reverse h).trans (by simp [trimFront, trimBack])

theorem trimFront_trimBack (cs : List Char) : trimFront (trimBack cs) = trimBack (trimFront cs) := by
  by_cases h : ∀ c ∈ cs, isBlank c = true
  · have hfront : trimFront cs = [] := List.dropWhile_eq_nil_iff.mpr h
    have hback : trimBack cs = [] := List.rdropWhile_eq_nil_iff.mpr h
    rw [hfront, hback]
    rfl
  · -- Cut the text at a character that stays.
    push Not at h
    obtain ⟨c, hmem, hc⟩ := h
    obtain ⟨front, rest, rfl⟩ := List.append_of_mem hmem
    have hc : isBlank c = false := by simpa using hc
    rw [trimBack_append hc, trimFront_append hc, trimFront_append hc, trimBack_append hc]

@[simp] theorem trim_trimFront (cs : List Char) : trim (trimFront cs) = trim cs := by
  rw [trim, trim, trimFront, trimFront, List.dropWhile_idempotent]

@[simp] theorem trim_trimBack (cs : List Char) : trim (trimBack cs) = trim cs := by
  have hidem : trimBack (trimBack (trimFront cs)) = trimBack (trimFront cs) :=
    List.rdropWhile_idempotent ..
  rw [trim, trimFront_trimBack, hidem, trim]

theorem trim_concat (hc : isBlank c = true) (cs : List Char) :
    trim (cs ++ [c]) = trim cs := by
  have hback : trimBack (cs ++ [c]) = trimBack cs := List.rdropWhile_concat_pos _ _ _ hc
  rw [← trim_trimBack (cs ++ [c]), hback, trim_trimBack]

theorem trim_append_cons (hc : isBlank c = false) :
    trim (front ++ c :: rest) = trimFront front ++ c :: trimBack rest := by
  rw [trim, trimFront_append hc, trimBack_append hc]

/-! ## Case -/

theorem toNat_lowerChar (c : Char) :
    (lowerChar c).toNat = if 65 ≤ c.toNat ∧ c.toNat ≤ 90 then c.toNat + 32 else c.toNat := by
  have hiff : ('A' ≤ c && c ≤ 'Z') = true ↔ 65 ≤ c.toNat ∧ c.toNat ≤ 90 := by
    simp [Char.le_def, UInt32.le_iff_toNat_le]
  rw [lowerChar]
  by_cases h : 65 ≤ c.toNat ∧ c.toNat ≤ 90
  · rw [if_pos (hiff.mpr h), if_pos h, Utf8.toNat_ofNat_of_valid (by omega)]
  · rw [if_neg (mt hiff.mp h), if_neg h]

/-- Characters before the letters are not touched. -/
theorem mem_lower_iff (hc : c.toNat < 65) : c ∈ lower cs ↔ c ∈ cs := by
  have hsame : ∀ d, lowerChar d = c ↔ d = c := by
    intro d
    have hcode := toNat_lowerChar d
    rw [← Char.toNat_inj, ← Char.toNat_inj, hcode]
    split <;> omega
  simp [lower, hsame]

theorem isBlank_lowerChar (c : Char) : isBlank (lowerChar c) = isBlank c := by
  by_cases h : 65 ≤ c.toNat ∧ c.toNat ≤ 90
  · have hcode := toNat_lowerChar c
    rw [if_pos h] at hcode
    rw [isBlank, isBlank, hcode, Bool.eq_iff_iff]
    simp only [Bool.or_eq_true, Bool.and_eq_true, decide_eq_true_eq, beq_iff_eq]
    omega
  · rw [show lowerChar c = c from Char.toNat_inj.mp ((toNat_lowerChar c).trans (if_neg h))]

theorem lower_trimFront (cs : List Char) : lower (trimFront cs) = trimFront (lower cs) := by
  have hsame : isBlank ∘ lowerChar = isBlank := funext isBlank_lowerChar
  rw [trimFront, lower, lower, trimFront, List.dropWhile_map, hsame]

theorem lower_trimBack (cs : List Char) : lower (trimBack cs) = trimBack (lower cs) := by
  have h := congrArg List.reverse (lower_trimFront cs.reverse)
  simpa [lower, trimFront, trimBack] using h

theorem lower_trim (cs : List Char) : lower (trim cs) = trim (lower cs) := by
  rw [trim, trim, lower_trimBack, lower_trimFront]

end LanguageClient.Text
