import LanguageClient.Json.Printer
import LanguageClient.Proofs.Decimal.Shortest
import LanguageClient.Proofs.Json.Grammar

/-!
# The texts of numbers and strings

What the printer writes for a number or a string is a text of it. A number is spelled by digits, a
fraction and an exponent (`Spells`), and `numeral_of_spells` finds the same parts in its octets. A
string is written character by character, so the induction is on the characters: each escape puts the
octets of its character in front of what follows (`quoted_escapeChar`).

In the other direction every number that is written anywhere is a machine integer or finite
(`Numeral.proper`).
-/

namespace LanguageClient.Json

open LanguageClient.Decimal LanguageClient.Text

/-! ## Digits as octets -/

theorem encodeChar_digit {c : Char} (h : c.isDigit = true) :
    ∃ b, Utf8.encodeChar c = [b] ∧ isDigit b = true ∧ b.toNat = c.toNat := by
  obtain ⟨hlow, hhigh⟩ := toNat_of_isDigit h
  have hb := Utf8.toNat_ofNat (n := c.toNat) (by omega)
  refine ⟨UInt8.ofNat c.toNat, ?_, ?_, hb⟩
  · rw [Utf8.encodeChar, if_pos (by omega)]
  · simp only [isDigit, UInt8.le_iff_toNat_le, hb, UInt8.toNat_ofNat, Bool.and_eq_true,
      decide_eq_true_eq]
    omega

variable {ds whole : List Char}

theorem isDigit_of_mem_encode (h : ∀ c ∈ ds, c.isDigit = true) {b : UInt8} (hb : b ∈ Utf8.encode ds) :
    isDigit b = true := by
  obtain ⟨c, hc, hmem⟩ := List.mem_flatMap.mp hb
  obtain ⟨b', heq, hdigit, -⟩ := encodeChar_digit (h c hc)
  rw [heq, List.mem_singleton] at hmem
  exact hmem ▸ hdigit

theorem encode_cons (c : Char) (cs : List Char) :
    Utf8.encode (c :: cs) = Utf8.encodeChar c ++ Utf8.encode cs := rfl

theorem digitsFrom_encode (h : ∀ c ∈ ds, c.isDigit = true) (acc : Nat) :
    digitsFrom acc (Utf8.encode ds) = Nat.ofDigitChars 10 ds acc := by
  induction ds generalizing acc with
  | nil => rfl
  | cons c cs ih =>
    obtain ⟨hc, hcs⟩ := List.forall_mem_cons.mp h
    obtain ⟨b, heq, -, hworth⟩ := encodeChar_digit hc
    rw [encode_cons, heq, Nat.ofDigitChars_cons, ← ih hcs, digitsFrom, List.singleton_append,
      List.foldl_cons, hworth]
    rfl

theorem length_encode_digits (h : ∀ c ∈ ds, c.isDigit = true) :
    (Utf8.encode ds).length = ds.length := by
  induction ds with
  | nil => rfl
  | cons c cs ih =>
    obtain ⟨hc, hcs⟩ := List.forall_mem_cons.mp h
    obtain ⟨b, heq, -, -⟩ := encodeChar_digit hc
    rw [encode_cons, heq, List.length_append, ih hcs, List.length_singleton, List.length_cons,
      Nat.add_comm]

theorem isDigits_encode (h : ∀ c ∈ ds, c.isDigit = true) (hsome : ds ≠ []) :
    IsDigits (Utf8.encode ds) where
  nonempty := by
    rw [← List.length_pos_iff, length_encode_digits h]
    exact List.length_pos_iff.mpr hsome
  digits := fun _ hb => isDigit_of_mem_encode h hb

theorem isWhole_encode (h : Whole whole) : IsWhole (Utf8.encode whole) := by
  rcases h with rfl | hled
  · exact .inl rfl
  · refine .inr ⟨isDigits_encode hled.digits hled.ne_nil, ?_⟩
    obtain ⟨c, cs, rfl, hlead⟩ := hled.lead
    obtain ⟨b, heq, -, hcode⟩ := encodeChar_digit (hled.digits c List.mem_cons_self)
    rw [encode_cons, heq]
    intro hzero
    obtain rfl : b = 0x30 := Option.some.inj hzero
    exact hlead ((Char.ofNat_toNat c).symm.trans (hcode ▸ rfl))

theorem isDigit_of_whole (h : Whole whole) : ∀ c ∈ whole, c.isDigit = true := by
  rcases h with rfl | hled
  · simp
  · exact hled.digits

theorem pointedOctets_encode {digits : List Char} (h : ∀ c ∈ digits, c.isDigit = true) :
    pointedOctets (Utf8.encode digits) = Utf8.encode (pointed digits) := by
  cases digits with
  | nil => rfl
  | cons c cs =>
    obtain ⟨b, heq, -, -⟩ := encodeChar_digit (h c List.mem_cons_self)
    change pointedOctets (Utf8.encode (c :: cs)) = 0x2E :: Utf8.encode (c :: cs)
    rw [encode_cons, heq]
    rfl

/-! ## Numbers -/

theorem exists_exponent {sign power : List Char} (hsign : sign ∈ [[], ['+'], ['-']])
    (hpower : ∀ c ∈ power, c.isDigit = true) (hsome : power ≠ []) :
    ∃ x : Exponent, x.octets = Utf8.encode ('e' :: (sign ++ power)) ∧
      x.power = if sign = ['-'] then -(worth power : Int) else worth power := by
  have hdigits := isDigits_encode hpower hsome
  have hworth : digitsFrom 0 (Utf8.encode power) = worth power := digitsFrom_encode hpower 0
  simp only [List.mem_cons, List.not_mem_nil, or_false] at hsign
  rcases hsign with rfl | rfl | rfl
  · refine ⟨⟨0x65, [], Utf8.encode power, .inl rfl, .inl rfl, hdigits⟩, rfl, ?_⟩
    simp [Exponent.power, hworth]
  · refine ⟨⟨0x65, [0x2B], Utf8.encode power, .inl rfl, .inr (.inl rfl), hdigits⟩, rfl, ?_⟩
    simp [Exponent.power, hworth]
  · refine ⟨⟨0x65, [0x2D], Utf8.encode power, .inl rfl, .inr (.inr rfl), hdigits⟩, rfl, ?_⟩
    simp [Exponent.power, hworth]

def signChars (negative : Bool) : List Char := if negative then ['-'] else []

theorem exists_numeral (negative : Bool) {digits : List Char} (hwhole : Whole whole)
    (hdigits : ∀ c ∈ digits, c.isDigit = true) (x : Option Exponent) (cs : List Char)
    (hcs : Utf8.encode cs = exponentOctets x) :
    ∃ y : Numeral, y.octets = Utf8.encode (signChars negative ++ (whole ++ (pointed digits ++ cs))) ∧
      y.value? = if digits = [] ∧ x = none then integer negative (worth whole)
        else (Binary64.ofDecimal negative (worth (whole ++ digits))
          (x.elim 0 Exponent.power - digits.length)).map .float := by
  refine ⟨⟨negative, Utf8.encode whole, Utf8.encode digits, x, isWhole_encode hwhole,
    fun _ hb => isDigit_of_mem_encode hdigits hb⟩, ?_, ?_⟩
  · rw [Utf8.encode_append, Utf8.encode_append, Utf8.encode_append, hcs, ← pointedOctets_encode hdigits]
    cases negative <;> rfl
  · have hwhole' := isDigit_of_whole hwhole
    have hnone : Utf8.encode digits = [] ↔ digits = [] := by
      rw [← List.length_eq_zero_iff, length_encode_digits hdigits, List.length_eq_zero_iff]
    have hjoined : digitsFrom 0 (Utf8.encode whole ++ Utf8.encode digits) = worth (whole ++ digits) := by
      rw [← Utf8.encode_append]
      exact digitsFrom_encode (List.forall_mem_append.mpr ⟨hwhole', hdigits⟩) 0
    have hworth : digitsFrom 0 (Utf8.encode whole) = worth whole := digitsFrom_encode hwhole' 0
    simp only [Numeral.value?, hnone, hjoined, hworth, length_encode_digits hdigits]

theorem numeral_of_spells (negative : Bool) {cs : List Char} {n : Nat} {e : Int}
    (h : Spells cs n e) :
    ∃ x : Numeral, x.octets = Utf8.encode (signChars negative ++ cs) ∧
      x.value? = (Binary64.ofDecimal negative n e).map .float := by
  cases h with
  | @positional whole digits hwhole hsome hdigits =>
    obtain ⟨x, htext, hvalue⟩ := exists_numeral negative hwhole hdigits none [] rfl
    refine ⟨x, by rw [htext, List.append_nil], ?_⟩
    rw [hvalue, if_neg fun hnone => hsome hnone.1]
    simp
  | @scientific whole digits sign power hwhole hdigits hsign hsome hpower =>
    obtain ⟨y, hoctets, hpower⟩ := exists_exponent hsign hpower hsome
    obtain ⟨x, htext, hvalue⟩ := exists_numeral negative hwhole hdigits (some y) _ hoctets.symm
    refine ⟨x, htext, ?_⟩
    rw [hvalue, if_neg (by simp)]
    simp [hpower]

/-- The numbers that a text can denote: machine integers and finite double-precision numbers. -/
def Number.Proper : Number → Prop
  | .int n => -9223372036854775808 ≤ n ∧ n ≤ 18446744073709551615
  | .float x => x.isFinite = true

theorem whole_toDigits (n : Nat) : Whole (Nat.toDigits 10 n) := by
  by_cases hn : n = 0
  · subst hn
    exact .inl (Nat.toDigits_zero 10)
  · exact .inr (led_toDigits hn)

theorem integer_natAbs {n : Int} (h : (Number.int n).Proper) :
    integer (n < 0) n.natAbs = some (.int n) := by
  obtain ⟨hlow, hhigh⟩ := h
  rw [integer]
  split
  · next hsign =>
    have hneg : n < 0 := of_decide_eq_true hsign
    rw [if_neg (by omega), if_pos (by omega), show -(n.natAbs : Int) = n by omega]
  · next hsign =>
    have hpos : ¬ n < 0 := fun hneg => hsign (decide_eq_true hneg)
    rw [if_pos (by omega), show (n.natAbs : Int) = n by omega]

theorem exists_renderNumber {n : Number} (hn : n.Proper) :
    ∃ x : Numeral, x.octets = Utf8.encode (renderNumber n) ∧ x.value? = some n := by
  cases n with
  | int n =>
    obtain ⟨x, htext, hvalue⟩ := exists_numeral (decide (n < 0)) (whole_toDigits n.natAbs)
      (List.forall_mem_nil _) none [] rfl
    refine ⟨x, ?_, ?_⟩
    · rw [htext, renderNumber, renderInt]
      by_cases hsign : n < 0 <;> simp [hsign, signChars, pointed]
    · rw [hvalue, if_pos ⟨rfl, rfl⟩, worth_toDigits, integer_natAbs hn]
  | float x =>
    have hfinite : x.isFinite = true := hn
    obtain ⟨cs, m, e, htext, hspells, hback⟩ := write_spells numberLayout hfinite
    obtain ⟨y, hoctets, hvalue⟩ := numeral_of_spells x.isNegative hspells
    refine ⟨y, ?_, by rw [hvalue, hback]; rfl⟩
    rw [hoctets, renderNumber, if_pos hfinite, htext]
    rfl

theorem float_proper {o : Option Binary64} (ho : ∀ x ∈ o, x.isFinite = true) :
    ∀ m ∈ o.map Number.float, m.Proper := by
  intro m hm
  obtain ⟨x, hx, rfl⟩ := Option.map_eq_some_iff.mp hm
  exact ho x hx

theorem ofDecimal_proper (negative : Bool) (n : Nat) (e : Int) :
    ∀ m ∈ (Binary64.ofDecimal negative n e).map Number.float, m.Proper :=
  float_proper fun _ hx => Binary64.isFinite_of_ofDecimal hx

theorem integer_proper (negative : Bool) (n : Nat) : ∀ m ∈ integer negative n, m.Proper := by
  intro m hm
  unfold integer at hm
  split at hm
  · split at hm
    · exact float_proper (o := some (Binary64.zero true)) (by decide) m hm
    · split at hm
      · obtain rfl := Option.some.inj hm
        exact ⟨by omega, by omega⟩
      · exact ofDecimal_proper _ _ _ m hm
  · split at hm
    · obtain rfl := Option.some.inj hm
      exact ⟨by omega, by omega⟩
    · exact ofDecimal_proper _ _ _ m hm

theorem Numeral.proper {x : Numeral} {m : Number} (h : x.value? = some m) : m.Proper := by
  rw [Numeral.value?] at h
  split at h
  · exact integer_proper _ _ m h
  · exact ofDecimal_proper _ _ _ m h

/-! ## Strings -/

theorem Quoted.plain {bs ws ms : List UInt8} (hbs : ∀ b ∈ bs, b ≠ 0x22 ∧ b ≠ 0x5C ∧ ¬ b < 0x20)
    (h : Quoted ws ms) : Quoted (bs ++ ws) (bs ++ ms) := by
  induction bs with
  | nil => exact h
  | cons b bs ih =>
    obtain ⟨⟨hquote, hslash, hcontrol⟩, hrest⟩ := List.forall_mem_cons.mp hbs
    exact .piece (w := [b]) (m := [b]) (.plain hcontrol hquote hslash) (ih hrest)

theorem plain_encodeChar {c : Char} (hquote : c ≠ '"') (hslash : c ≠ '\\') (hcontrol : ¬ c.toNat < 0x20)
    {b : UInt8} (hb : b ∈ Utf8.encodeChar c) : b ≠ 0x22 ∧ b ≠ 0x5C ∧ ¬ b < 0x20 := by
  have hmem : b ∈ Utf8.encode [c] := by simpa [Utf8.encode] using hb
  -- An octet of one of these values would be the character itself.
  have hself : b.toNat < 0x80 → Char.ofNat b.toNat = c := fun hlow =>
    List.mem_singleton.mp (Utf8.mem_encode_ascii hlow hmem)
  refine ⟨?_, ?_, fun hlow => ?_⟩
  · rintro rfl
    exact hquote (hself (by decide)).symm
  · rintro rfl
    exact hslash (hself (by decide)).symm
  · have hnat : b.toNat < 0x20 := UInt8.lt_iff_toNat_lt.mp hlow
    have hround : ∀ n : Fin 32, (Char.ofNat n).toNat = n.val := by decide
    rw [← hself (by omega), hround ⟨b.toNat, hnat⟩] at hcontrol
    exact hcontrol hnat

theorem hexValue_digit : ∀ n : Fin 16,
    Utf8.encodeChar (Hex.digit n) = [UInt8.ofNat (Hex.digit n).toNat] ∧
      hexValue (UInt8.ofNat (Hex.digit n).toNat) = some n.val := by decide

theorem quoted_escapeChar {ws ms : List UInt8} (c : Char) (h : Quoted ws ms) :
    Quoted (Utf8.encode (escapeChar c) ++ ws) (Utf8.encodeChar c ++ ms) := by
  unfold escapeChar
  -- Seven characters have short forms of their own.
  iterate 7
    split
    · next hc => subst hc; exact .piece (.short rfl) h
  split
  · next hcontrol =>
    obtain ⟨hhigh, hhigh'⟩ := hexValue_digit ⟨c.toNat / 16, by omega⟩
    obtain ⟨hlow, hlow'⟩ := hexValue_digit ⟨c.toNat % 16, by omega⟩
    dsimp only at hhigh hhigh' hlow hlow'
    have hvalue : hexValue4 0x30 0x30 (UInt8.ofNat (Hex.digit (c.toNat / 16)).toNat)
        (UInt8.ofNat (Hex.digit (c.toNat % 16)).toNat) = some c.toNat := by
      rw [hexValue4, hhigh', hlow', show hexValue 0x30 = some 0 from rfl]
      dsimp only
      congr 1
      omega
    have htext : Utf8.encode ['\\', 'u', '0', '0', Hex.digit (c.toNat / 16),
        Hex.digit (c.toNat % 16)] =
        [0x5C, 0x75, 0x30, 0x30, UInt8.ofNat (Hex.digit (c.toNat / 16)).toNat,
          UInt8.ofNat (Hex.digit (c.toNat % 16)).toNat] := by
      simp only [encode_cons, hhigh, hlow]
      rfl
    have hpiece := Piece.code hvalue (.inl (by omega))
    rw [Char.ofNat_toNat] at hpiece
    rw [htext]
    exact .piece hpiece h
  · next hquote hslash _ _ _ _ _ hcontrol =>
    rw [show Utf8.encode [c] = Utf8.encodeChar c by simp [Utf8.encode]]
    exact h.plain fun b hb => plain_encodeChar hquote hslash hcontrol hb

theorem quoted_escaped (cs : List Char) :
    Quoted (Utf8.encode (cs.flatMap escapeChar) ++ [0x22]) (Utf8.encode cs) := by
  induction cs with
  | nil => exact .close
  | cons c cs ih =>
    rw [List.flatMap_cons, Utf8.encode_append, List.append_assoc, encode_cons]
    exact quoted_escapeChar c ih

theorem encode_renderString (s : String) :
    Utf8.encode (renderString s) = 0x22 :: (Utf8.encode (s.toList.flatMap escapeChar) ++ [0x22]) := by
  rw [renderString, encode_cons, Utf8.encode_append]
  rfl

end LanguageClient.Json
