import LanguageClient.Text.Blank
import LanguageClient.Text.Numeral
import LanguageClient.Text.Utf8
import Mathlib.Data.List.TakeWhile

/-!
# What is written can be read back

The wire knows octets only. On the way there a number becomes a numeral and a text becomes octets;
on the way back the octets become a text, blanks are cut off, and a numeral becomes a number. This
file shows that each step back undoes its step there: `readNumeral_numeral` for numbers,
`decode_encode` for texts, and `trim_append` for the blanks that were put behind a text.
-/

namespace LanguageClient.Text

/-! ## Numerals -/

theorem digitValue_digitChar {d : Nat} (h : d < 10) : digitValue (Nat.digitChar d) = some d := by
  have hnat : (Nat.digitChar d).toNat = 48 + d := Nat.toNat_digitChar_of_lt_ten h
  have hlow : '0' ≤ Nat.digitChar d := by
    rw [Char.le_def, UInt32.le_iff_toNat_le]
    change 48 ≤ (Nat.digitChar d).toNat
    omega
  have hhigh : Nat.digitChar d ≤ '9' := by
    rw [Char.le_def, UInt32.le_iff_toNat_le]
    change (Nat.digitChar d).toNat ≤ 57
    omega
  simp [digitValue, hlow, hhigh, hnat]

theorem digitsValue_append {acc v : Nat} {cs : List Char} (h : digitsValue acc cs = some v)
    (ds : List Char) : digitsValue acc (cs ++ ds) = digitsValue v ds := by
  induction cs generalizing acc with
  | nil =>
    obtain rfl := Option.some.inj h
    rfl
  | cons c cs ih =>
    rw [List.cons_append, digitsValue]
    rw [digitsValue] at h
    cases hc : digitValue c with
    | none =>
      rw [hc] at h
      cases h
    | some d =>
      rw [hc] at h
      exact ih h

/-- The digits of a number are worth the number. The induction cuts off the last digit. -/
theorem digitsValue_numeral (n : Nat) : digitsValue 0 (numeral n) = some n := by
  induction n using Nat.strongRecOn with
  | ind n ih =>
    by_cases hsmall : n < 10
    · rw [numeral, Nat.toDigits_of_lt_base hsmall, digitsValue, digitValue_digitChar hsmall]
      simp [digitsValue]
    · have hdigit : n % 10 < 10 := Nat.mod_lt _ (by omega)
      have hfront : digitsValue 0 (Nat.toDigits 10 (n / 10)) = some (n / 10) := ih (n / 10) (by omega)
      rw [numeral, Nat.toDigits_of_base_le (by omega) (by omega), digitsValue_append hfront,
        digitsValue, digitValue_digitChar hdigit]
      have hwhole : 10 * (n / 10) + n % 10 = n := by omega
      simp [digitsValue, hwhole]

theorem isDigit_of_mem_numeral {c : Char} {n : Nat} (h : c ∈ numeral n) : c.isDigit = true :=
  Nat.isDigit_of_mem_toDigits (by omega) (by omega) h

theorem toNat_of_isDigit {c : Char} (h : c.isDigit = true) : 48 ≤ c.toNat ∧ c.toNat ≤ 57 := by
  simpa [Char.isDigit, UInt32.le_iff_toNat_le] using h

theorem readNumeral_numeral {n limit : Nat} (h : n ≤ limit) :
    readNumeral limit (numeral n) = some n := by
  have hvalue := digitsValue_numeral n
  cases hnum : numeral n with
  | nil => exact absurd hnum Nat.toDigits_ne_nil
  | cons c cs =>
    have hc : c ≠ '+' := by
      rintro rfl
      have hdigit := isDigit_of_mem_numeral (n := n) (hnum ▸ List.mem_cons_self)
      exact absurd hdigit (by decide)
    rw [hnum] at hvalue
    unfold readNumeral
    split
    · next heq => exact absurd (List.cons.inj heq).1 hc
    · simp [hvalue, h]

/-! ## Blanks -/

theorem dropWhile_isBlank {cs : List Char} (h : ∀ c ∈ cs.head?, isBlank c = false) :
    cs.dropWhile isBlank = cs := by
  cases cs with
  | nil => rfl
  | cons c cs => rw [List.dropWhile_cons_of_neg (by simp [h c rfl])]

/-- Blanks behind a text that neither begins nor ends with one are cut off, and nothing else is. -/
theorem trim_append {text blanks : List Char} (hfront : ∀ c ∈ text.head?, isBlank c = false)
    (hback : ∀ c ∈ text.getLast?, isBlank c = false) (hblank : ∀ c ∈ blanks, isBlank c = true) :
    trim (text ++ blanks) = text := by
  cases text with
  | nil =>
    have hnone : blanks.dropWhile isBlank = [] := List.dropWhile_eq_nil_iff.mpr hblank
    simp [trim, trimFront, trimBack, hnone]
  | cons c cs =>
    have hkept : ((c :: cs) ++ blanks).dropWhile isBlank = (c :: cs) ++ blanks :=
      dropWhile_isBlank (by simpa using hfront)
    have hlast : (c :: cs).reverse.dropWhile isBlank = (c :: cs).reverse :=
      dropWhile_isBlank (by simpa only [List.head?_reverse] using hback)
    have hcut : (blanks.reverse ++ (c :: cs).reverse).dropWhile isBlank = (c :: cs).reverse := by
      rw [List.dropWhile_append_of_pos (by simpa using hblank), hlast]
    rw [trim, trimFront, hkept, trimBack, List.reverse_append, hcut, List.reverse_reverse]

theorem trim_eq_self {text : List Char} (hfront : ∀ c ∈ text.head?, isBlank c = false)
    (hback : ∀ c ∈ text.getLast?, isBlank c = false) : trim text = text := by
  have h := trim_append hfront hback (List.forall_mem_nil _)
  rwa [List.append_nil] at h

theorem trim_cons {c : Char} (h : isBlank c = true) (cs : List Char) : trim (c :: cs) = trim cs := by
  simp [trim, trimFront, h]

theorem isBlank_of_isDigit {c : Char} (h : c.isDigit = true) : isBlank c = false := by
  have hcode := toNat_of_isDigit h
  simp only [isBlank, Bool.or_eq_false_iff, Bool.and_eq_false_iff, decide_eq_false_iff_not,
    beq_eq_false_iff_ne]
  omega

theorem trim_numeral (n : Nat) : trim (numeral n) = numeral n := by
  refine trim_eq_self (fun c hc => ?_) (fun c hc => ?_)
  · exact isBlank_of_isDigit (isDigit_of_mem_numeral (List.mem_of_mem_head? hc))
  · exact isBlank_of_isDigit (isDigit_of_mem_numeral (List.mem_of_mem_getLast? hc))

/-! ## UTF-8 -/

namespace Utf8

theorem toNat_ofNat {n : Nat} (h : n < 256) : (UInt8.ofNat n).toNat = n := by
  simp [Nat.mod_eq_of_lt h]

theorem toNat_char (c : Char) : c.toNat < 0xD800 ∨ 0xDFFF < c.toNat ∧ c.toNat < 0x110000 := c.valid

theorem second_iff {a b x y z w : UInt8} (hne : x ≠ z) (hy : 0x80 ≤ y) (hw : w ≤ 0xBF) :
    (if a == x then y ≤ b && b ≤ 0xBF else if a == z then 0x80 ≤ b && b ≤ w else isTail b) = true ↔
      (a.toNat = x.toNat → y.toNat ≤ b.toNat) ∧ (a.toNat = z.toNat → b.toNat ≤ w.toNat) ∧
        0x80 ≤ b.toNat ∧ b.toNat ≤ 0xBF := by
  simp only [isTail, beq_iff_eq, ne_eq, ← UInt8.toNat_inj, UInt8.le_iff_toNat_le,
    UInt8.toNat_ofNat] at hne hy hw ⊢
  split
  · simp only [Bool.and_eq_true, decide_eq_true_eq]
    omega
  · split <;> simp only [Bool.and_eq_true, decide_eq_true_eq] <;> omega

/-- The second octet rules out what has a shorter form, and the surrogates. -/
theorem isSecondOfThree_iff {a b : UInt8} : isSecondOfThree a b = true ↔
    (a.toNat = 0xE0 → 0xA0 ≤ b.toNat) ∧ (a.toNat = 0xED → b.toNat ≤ 0x9F) ∧
      0x80 ≤ b.toNat ∧ b.toNat ≤ 0xBF :=
  second_iff (by decide) (by decide) (by decide)

/-- The second octet rules out what has a shorter form, and what is beyond the last plane. -/
theorem isSecondOfFour_iff {a b : UInt8} : isSecondOfFour a b = true ↔
    (a.toNat = 0xF0 → 0x90 ≤ b.toNat) ∧ (a.toNat = 0xF4 → b.toNat ≤ 0x8F) ∧
      0x80 ≤ b.toNat ∧ b.toNat ≤ 0xBF :=
  second_iff (by decide) (by decide) (by decide)

/-! What the decoder makes of each kind of well-formed sequence. -/

theorem decodeFrom_one {a : UInt8} (ha : a < 0x80) (i : Nat) (rest : List UInt8) :
    decodeFrom i (a :: rest) = consChar (Char.ofNat a.toNat) (decodeFrom (i + 1) rest) := by
  rw [decodeFrom.eq_def]
  simp [ha]

/-- The ranges of a first octet are asked for from the lowest one on, so all lower ones are ruled
out. -/
theorem not_in_lower_range {a low : UInt8} (ha : low ≤ a) :
    (0x80 ≤ low → ¬ a < 0x80) ∧ (0xDF < low → ¬ a ≤ 0xDF) ∧ (0xEF < low → ¬ a ≤ 0xEF) :=
  ⟨fun h => UInt8.not_lt.mpr (UInt8.le_trans h ha),
    fun h => UInt8.not_le.mpr (UInt8.lt_of_lt_of_le h ha),
    fun h => UInt8.not_le.mpr (UInt8.lt_of_lt_of_le h ha)⟩

theorem decodeFrom_two {a b : UInt8} (ha : 0xC2 ≤ a ∧ a ≤ 0xDF) (hb : isTail b = true) (i : Nat)
    (rest : List UInt8) :
    decodeFrom i (a :: b :: rest) = consChar (charOfTwo a b) (decodeFrom (i + 2) rest) := by
  obtain ⟨hone, -, -⟩ := not_in_lower_range ha.1
  rw [decodeFrom.eq_def]
  simp [hone, ha, hb]

theorem decodeFrom_three {a b c : UInt8} (ha : 0xE0 ≤ a ∧ a ≤ 0xEF)
    (hb : isSecondOfThree a b = true) (hc : isTail c = true) (i : Nat) (rest : List UInt8) :
    decodeFrom i (a :: b :: c :: rest) =
      consChar (charOfThree a b c) (decodeFrom (i + 3) rest) := by
  obtain ⟨hone, htwo, -⟩ := not_in_lower_range ha.1
  rw [decodeFrom.eq_def]
  simp [hone, htwo, ha, hb, hc]

theorem decodeFrom_four {a b c d : UInt8} (ha : 0xF0 ≤ a ∧ a ≤ 0xF4)
    (hb : isSecondOfFour a b = true) (hc : isTail c = true) (hd : isTail d = true) (i : Nat)
    (rest : List UInt8) :
    decodeFrom i (a :: b :: c :: d :: rest) =
      consChar (charOfFour a b c d) (decodeFrom (i + 4) rest) := by
  obtain ⟨hone, htwo, hthree⟩ := not_in_lower_range ha.1
  rw [decodeFrom.eq_def]
  simp [hone, htwo, hthree, ha, hb, hc, hd]

theorem isTail_ofNat {k : Nat} (h : k < 64) : isTail (UInt8.ofNat (0x80 + k)) = true := by
  have hb := toNat_ofNat (n := 0x80 + k) (by omega)
  simp only [isTail, UInt8.le_iff_toNat_le, hb, UInt8.toNat_ofNat, Bool.and_eq_true,
    decide_eq_true_eq]
  omega

theorem lead_ofNat (low high : Nat) {n : Nat} (hhigh : high < 256) (h : low ≤ n ∧ n ≤ high) :
    UInt8.ofNat low ≤ UInt8.ofNat n ∧ UInt8.ofNat n ≤ UInt8.ofNat high := by
  simp only [UInt8.le_iff_toNat_le, toNat_ofNat hhigh, toNat_ofNat (h.2.trans_lt hhigh),
    toNat_ofNat ((h.1.trans h.2).trans_lt hhigh)]
  exact h

/-- The octets of one character are decoded into that character, and the rest is decoded from
there. The cases are those of the encoder; in each of them every octet is moved to its number, and
what remains is arithmetic. -/
theorem decodeFrom_encodeChar (c : Char) (i : Nat) (rest : List UInt8) :
    decodeFrom i (encodeChar c ++ rest) =
      consChar c (decodeFrom (i + (encodeChar c).length) rest) := by
  have hchar := toNat_char c
  have hback : ∀ m, m = c.toNat → Char.ofNat m = c := by
    rintro m rfl
    exact Char.ofNat_toNat c
  by_cases hone : c.toNat < 0x80
  · have ha := toNat_ofNat (n := c.toNat) (by omega)
    have hlead : UInt8.ofNat c.toNat < 0x80 := by
      simp only [UInt8.lt_iff_toNat_lt, ha, UInt8.toNat_ofNat]
      omega
    simp only [encodeChar, hone, if_true, List.cons_append, List.nil_append]
    rw [decodeFrom_one hlead, ha, Char.ofNat_toNat]
    rfl
  by_cases htwo : c.toNat < 0x800
  · have ha := toNat_ofNat (n := 0xC0 + c.toNat / 64) (by omega)
    have hb := toNat_ofNat (n := 0x80 + c.toNat % 64) (by omega)
    simp only [encodeChar, hone, htwo, if_true, if_false, List.cons_append, List.nil_append]
    rw [decodeFrom_two (lead_ofNat 0xC2 0xDF (by decide) (by omega)) (isTail_ofNat (by omega)),
      charOfTwo, ha, hb, hback _ (by omega)]
    rfl
  by_cases hthree : c.toNat < 0x10000
  · have ha := toNat_ofNat (n := 0xE0 + c.toNat / 4096) (by omega)
    have hb := toNat_ofNat (n := 0x80 + c.toNat / 64 % 64) (by omega)
    have hc := toNat_ofNat (n := 0x80 + c.toNat % 64) (by omega)
    have hsecond : isSecondOfThree (UInt8.ofNat (0xE0 + c.toNat / 4096))
        (UInt8.ofNat (0x80 + c.toNat / 64 % 64)) = true := by
      rw [isSecondOfThree_iff, ha, hb]
      omega
    simp only [encodeChar, hone, htwo, hthree, if_true, if_false, List.cons_append,
      List.nil_append]
    rw [decodeFrom_three (lead_ofNat 0xE0 0xEF (by decide) (by omega)) hsecond
      (isTail_ofNat (by omega)), charOfThree, ha, hb, hc, hback _ (by omega)]
    rfl
  · have ha := toNat_ofNat (n := 0xF0 + c.toNat / 262144) (by omega)
    have hb := toNat_ofNat (n := 0x80 + c.toNat / 4096 % 64) (by omega)
    have hc := toNat_ofNat (n := 0x80 + c.toNat / 64 % 64) (by omega)
    have hd := toNat_ofNat (n := 0x80 + c.toNat % 64) (by omega)
    have hsecond : isSecondOfFour (UInt8.ofNat (0xF0 + c.toNat / 262144))
        (UInt8.ofNat (0x80 + c.toNat / 4096 % 64)) = true := by
      rw [isSecondOfFour_iff, ha, hb]
      omega
    simp only [encodeChar, hone, htwo, hthree, if_false, List.cons_append, List.nil_append]
    rw [decodeFrom_four (lead_ofNat 0xF0 0xF4 (by decide) (by omega)) hsecond
      (isTail_ofNat (by omega)) (isTail_ofNat (by omega)), charOfFour, ha, hb, hc, hd,
      hback _ (by omega)]
    rfl

theorem decodeFrom_encode (cs : List Char) (i : Nat) : decodeFrom i (encode cs) = .ok cs := by
  induction cs generalizing i with
  | nil => rfl
  | cons c cs ih =>
    rw [encode, List.flatMap_cons, decodeFrom_encodeChar]
    rw [encode] at ih
    rw [ih]
    rfl

theorem decode_encode (cs : List Char) : decode (encode cs) = .ok cs := decodeFrom_encode cs 0

theorem encode_append (cs ds : List Char) : encode (cs ++ ds) = encode cs ++ encode ds :=
  List.flatMap_append

theorem mem_encode_ascii {b : UInt8} {cs : List Char} (hb : b.toNat < 0x80) (h : b ∈ encode cs) :
    Char.ofNat b.toNat ∈ cs := by
  obtain ⟨c, hc, hmem⟩ := List.mem_flatMap.mp h
  have hchar := toNat_char c
  -- All octets of longer sequences are at least `80`.
  have hlow : c.toNat < 0x80 := by
    by_contra hhigh
    unfold encodeChar at hmem
    simp only [hhigh, if_false] at hmem
    split at hmem
    · simp only [List.mem_cons, List.not_mem_nil, or_false] at hmem
      rcases hmem with rfl | rfl <;> rw [toNat_ofNat (by omega)] at hb <;> omega
    split at hmem
    · simp only [List.mem_cons, List.not_mem_nil, or_false] at hmem
      rcases hmem with rfl | rfl | rfl <;> rw [toNat_ofNat (by omega)] at hb <;> omega
    · simp only [List.mem_cons, List.not_mem_nil, or_false] at hmem
      rcases hmem with rfl | rfl | rfl | rfl <;> rw [toNat_ofNat (by omega)] at hb <;> omega
  have heq : b = UInt8.ofNat c.toNat := by
    unfold encodeChar at hmem
    simpa [hlow] using hmem
  rw [heq, toNat_ofNat (by omega), Char.ofNat_toNat]
  exact hc

end Utf8

end LanguageClient.Text
