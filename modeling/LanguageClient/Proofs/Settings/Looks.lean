import LanguageClient.Proofs.Settings.Sources
import Mathlib.Data.List.TakeDrop

/-!
# What a text in the environment looks like

A variable holds a text, and the text is taken for something else if it looks like it. `Typed` says
what that means: items between commas, a truth value, a number, or something enclosed in quotes or
brackets that can be read to its end. **`valueOf_eq_str_iff`** says that every other text stands for
itself, and none of these does.
-/

namespace LanguageClient.Variables

open Text

/-! ## Numbers -/

def IsSign (cs : List Char) : Prop := cs = [] ∨ cs = ['+'] ∨ cs = ['-']

def AreDigits (cs : List Char) : Prop := ∀ c ∈ cs, c.isDigit = true

/-- What may follow the digits of a number with a decimal point. -/
def IsExponent (cs : List Char) : Prop :=
  cs = [] ∨ ∃ mark sign digits, cs = mark :: (sign ++ digits) ∧ (mark = 'e' ∨ mark = 'E') ∧
    IsSign sign ∧ AreDigits digits ∧ digits ≠ []

def IsDecimal (cs : List Char) : Prop :=
  ∃ sign whole fraction exponent, cs = sign ++ (whole ++ '.' :: (fraction ++ exponent)) ∧
    IsSign sign ∧ AreDigits whole ∧ AreDigits fraction ∧ whole ++ fraction ≠ [] ∧
    IsExponent exponent

/-- A number below zero that fits into a signed word. -/
def IsNegative (cs : List Char) : Prop :=
  ∃ digits, cs = '-' :: digits ∧ digits ≠ [] ∧ AreDigits digits ∧
    Nat.ofDigitChars 10 digits 0 ≤ 9223372036854775808

def IsNumber (cs : List Char) : Prop :=
  IsDecimal cs ∨ (∃ n, IsNumeral cs n ∧ n ≤ maxWord64) ∨ IsNegative cs

variable {c : Char} {cs rest : List Char}

theorem leadingDigits_eq (value count : Nat) (cs : List Char) :
    leadingDigits value count cs =
      (Nat.ofDigitChars 10 (cs.takeWhile Char.isDigit) value,
        count + (cs.takeWhile Char.isDigit).length, cs.dropWhile Char.isDigit) := by
  induction cs generalizing value count with
  | nil => simp [leadingDigits]
  | cons c cs ih =>
    rw [leadingDigits]
    cases hc : digitValue c with
    | none =>
      have hdigit : c.isDigit = false := by
        cases h : c.isDigit with
        | false => rfl
        | true => rw [digitValue_eq_some.mpr ⟨h, rfl⟩] at hc; cases hc
      simp [hdigit]
    | some d =>
      obtain ⟨hdigit, rfl⟩ := digitValue_eq_some.mp hc
      simp only [ih, hdigit, List.takeWhile_cons_of_pos, List.dropWhile_cons_of_pos,
        Nat.ofDigitChars_cons, List.length_cons]
      exact Prod.ext rfl (Prod.ext (by simp; omega) rfl)

theorem takeWhile_digits (h : AreDigits cs) (hrest : ∀ c ∈ rest.head?, c.isDigit = false) :
    (cs ++ rest).takeWhile Char.isDigit = cs ∧ (cs ++ rest).dropWhile Char.isDigit = rest := by
  rw [List.takeWhile_append_of_pos h, List.dropWhile_append_of_pos h]
  cases rest with
  | nil => simp
  | cons c rest => simp [hrest c rfl]

theorem leadingSign_spec (cs : List Char) : ∃ sign, IsSign sign ∧ cs = sign ++ (leadingSign cs).2 := by
  unfold leadingSign
  split
  · exact ⟨['-'], .inr (.inr rfl), rfl⟩
  · exact ⟨['+'], .inr (.inl rfl), rfl⟩
  · exact ⟨[], .inl rfl, rfl⟩

theorem leadingSign_append {sign : List Char} (h : IsSign sign)
    (hrest : ∀ c ∈ rest.head?, c ≠ '+' ∧ c ≠ '-') : (leadingSign (sign ++ rest)).2 = rest := by
  rcases h with rfl | rfl | rfl
  · cases rest with
    | nil => rfl
    | cons c rest =>
      obtain ⟨hplus, hminus⟩ := hrest c rfl
      unfold leadingSign
      split
      · next heq => exact absurd (List.cons.inj heq).1 hminus
      · next heq => exact absurd (List.cons.inj heq).1 hplus
      · rfl
  · rfl
  · rfl

theorem ne_sign_of_isDigit (h : c.isDigit = true) : c ≠ '+' ∧ c ≠ '-' := by
  constructor <;> (rintro rfl; cases h)

theorem areDigits_iff : AreDigits cs ↔ cs.dropWhile Char.isDigit = [] :=
  List.dropWhile_eq_nil_iff.symm

theorem areDigits_takeWhile (cs : List Char) : AreDigits (cs.takeWhile Char.isDigit) :=
  fun _ => List.mem_takeWhile_imp

theorem isSome_readExponent_cons {mark : Char} (hmark : mark = 'e' ∨ mark = 'E') :
    (readExponent (mark :: rest)).isSome = true ↔
      AreDigits (leadingSign rest).2 ∧ (leadingSign rest).2 ≠ [] := by
  rw [readExponent, if_pos hmark]
  generalize leadingSign rest = p
  simp only [leadingDigits_eq, areDigits_iff]
  have hsplit := List.takeWhile_append_dropWhile (p := Char.isDigit) (l := p.2)
  cases hfront : p.2.takeWhile Char.isDigit with
  | nil =>
    rw [hfront, List.nil_append] at hsplit
    rw [hsplit]
    simp
  | cons d digits =>
    have hne : p.2 ≠ [] := by
      rw [← hsplit, hfront]
      simp
    cases hback : p.2.dropWhile Char.isDigit with
    | nil => simp [hne]
    | cons => simp

theorem isSome_readExponent : (readExponent cs).isSome = true ↔ IsExponent cs := by
  constructor
  · intro h
    cases cs with
    | nil => exact .inl rfl
    | cons mark rest =>
      by_cases hmark : mark = 'e' ∨ mark = 'E'
      · obtain ⟨sign, hsign, hrest⟩ := leadingSign_spec rest
        obtain ⟨hdigits, hne⟩ := (isSome_readExponent_cons hmark).mp h
        exact .inr ⟨mark, sign, _, by rw [← hrest], hmark, hsign, hdigits, hne⟩
      · rw [readExponent, if_neg hmark] at h
        cases h
  · rintro (rfl | ⟨mark, sign, digits, rfl, hmark, hsign, hdigits, hne⟩)
    · rfl
    · have hrest : (leadingSign (sign ++ digits)).2 = digits :=
        leadingSign_append hsign fun c hc =>
          ne_sign_of_isDigit (hdigits c (List.mem_of_head? hc))
      rw [isSome_readExponent_cons hmark, hrest]
      exact ⟨hdigits, hne⟩

theorem not_isDigit_of_exponent (h : IsExponent cs) : ∀ c ∈ cs.head?, c.isDigit = false := by
  rcases h with rfl | ⟨mark, sign, digits, rfl, rfl | rfl, -⟩ <;> simp

theorem isSome_readDecimal_of_point {whole more : List Char}
    (hsign : (leadingSign cs).2 = whole ++ '.' :: more) (hwhole : AreDigits whole) :
    (readDecimal cs).isSome = true ↔
      whole ++ more.takeWhile Char.isDigit ≠ [] ∧ IsExponent (more.dropWhile Char.isDigit) := by
  have hpoint : ∀ c ∈ ('.' :: more).head?, c.isDigit = false := by simp
  obtain ⟨hfront, hback⟩ := takeWhile_digits hwhole hpoint
  have hcount : 0 + whole.length + (0 + (more.takeWhile Char.isDigit).length) = 0 ↔
      whole ++ more.takeWhile Char.isDigit = [] := by
    rw [← List.length_eq_zero_iff, List.length_append]
    omega
  unfold readDecimal
  simp only [hsign, leadingDigits_eq, hfront, hback, hcount]
  split
  · next hnone => simp [hnone]
  · next hsome => rw [Option.isSome_map, isSome_readExponent, and_iff_right hsome]

theorem isSome_readDecimal : (readDecimal cs).isSome = true ↔ IsDecimal cs := by
  constructor
  · intro h
    obtain ⟨sign, hsign, hcs⟩ := leadingSign_spec cs
    have hsplit := List.takeWhile_append_dropWhile (p := Char.isDigit) (l := (leadingSign cs).2)
    have hwhole := areDigits_takeWhile (leadingSign cs).2
    have hpoint : ∃ more, (leadingSign cs).2.dropWhile Char.isDigit = '.' :: more := by
      unfold readDecimal at h
      simp only [leadingDigits_eq] at h
      split at h
      · next more heq => exact ⟨more, heq⟩
      · cases h
    obtain ⟨more, hmore⟩ := hpoint
    rw [hmore] at hsplit
    obtain ⟨hne, hexponent⟩ := (isSome_readDecimal_of_point hsplit.symm hwhole).mp h
    refine ⟨sign, _, _, _, ?_, hsign, hwhole, areDigits_takeWhile more, hne, hexponent⟩
    rw [List.takeWhile_append_dropWhile, hsplit]
    exact hcs
  · rintro ⟨sign, whole, fraction, exponent, rfl, hsign, hwhole, hfraction, hne, hexponent⟩
    obtain ⟨hfront, hback⟩ := takeWhile_digits hfraction (not_isDigit_of_exponent hexponent)
    have hrest : (leadingSign (sign ++ (whole ++ '.' :: (fraction ++ exponent)))).2 =
        whole ++ '.' :: (fraction ++ exponent) := by
      refine leadingSign_append hsign fun c hc => ?_
      cases whole with
      | nil => cases hc; decide
      | cons d whole => exact ne_sign_of_isDigit (hwhole c (List.mem_of_head? hc))
    rw [isSome_readDecimal_of_point hrest hwhole, hfront, hback]
    exact ⟨hne, hexponent⟩

theorem isSome_readWhole :
    (readWhole cs).isSome = true ↔ (∃ n, IsNumeral cs n ∧ n ≤ maxWord64) ∨ IsNegative cs := by
  constructor
  · intro h
    unfold readWhole at h
    split at h
    · next n hn => exact .inl ⟨n, readNumeral_eq_some_iff.mp hn⟩
    · split at h
      · next c digits _ =>
        obtain ⟨v, hv⟩ := Option.isSome_iff_exists.mp h
        obtain ⟨n, hdigits, hn⟩ := Option.bind_eq_some_iff.mp hv
        obtain ⟨hall, rfl⟩ := digitsValue_eq_some.mp hdigits
        split at hn
        · next hle => exact .inr ⟨c :: digits, rfl, by simp, hall, hle⟩
        · cases hn
      · cases h
  · rintro (⟨n, hn⟩ | ⟨digits, rfl, hne, hall, hle⟩)
    · unfold readWhole
      rw [readNumeral_eq_some_iff.mpr hn]
      rfl
    · obtain ⟨c, digits, rfl⟩ := List.exists_cons_of_ne_nil hne
      unfold readWhole
      split
      · rfl
      · simp [digitsValue_eq_some.mpr ⟨hall, rfl⟩, hle]

variable {v : Json} {fuel : Nat} {text : String}

theorem point_mem_of_isDecimal (h : IsDecimal cs) : cs.contains '.' = true := by
  obtain ⟨sign, whole, fraction, exponent, rfl, -⟩ := h
  simp

theorem plainValue_eq_str_iff : plainValue cs = .str (String.ofList cs) ↔ ¬ IsNumber cs := by
  have hsome : ((if cs.contains '.' then readDecimal cs else none).or (readWhole cs)).isSome = true ↔
      IsNumber cs := by
    rw [Option.isSome_or, Bool.or_eq_true, isSome_readWhole, IsNumber]
    refine or_congr ?_ Iff.rfl
    split
    · exact isSome_readDecimal
    · next hpoint => simpa using mt point_mem_of_isDecimal hpoint
  rw [← hsome]
  rcases plainValue_cases cs with ⟨h, hnone⟩ | ⟨h, hfound⟩
  · exact iff_of_true h (by rw [hnone]; simp)
  · refine iff_of_false ?_ (not_not_intro hfound)
    rcases h with h | ⟨x, h⟩ <;> simp [h]

/-! ## What is enclosed -/

def opens (c : Char) : Bool := c = '"' || c = '\'' || c = '[' || c = '\x7b'

theorem opens_iff : opens c = true ↔ c = '"' ∨ c = '\'' ∨ c = '[' ∨ c = '\x7b' := by
  simp [opens, or_assoc]

theorem readEscape_length {e : Toml.Edition} (h : Toml.readEscape e cs = .ok (c, rest)) :
    rest.length ≤ cs.length := by
  have hcode : ∀ {count : Nat} {ds : List Char}, Toml.takeCode count ds = .ok (c, rest) →
      rest.length ≤ ds.length := by
    intro count ds h
    unfold Toml.takeCode at h
    split at h
    · cases h
      simp
    · cases h
  unfold Toml.readEscape at h
  split at h
  · exact (hcode h).trans (Nat.le_succ _)
  · exact (hcode h).trans (Nat.le_succ _)
  · split at h
    · cases h
      simp
    · split at h
      · cases h
        simp
      · split at h
        · exact (hcode h).trans (Nat.le_succ _)
        · cases h
  · cases h

theorem readBasic_length {e : Toml.Edition} {text : List Char}
    (h : Toml.readBasic e fuel cs = .ok (text, rest)) : text.length + rest.length ≤ cs.length := by
  induction fuel generalizing cs text with
  | zero => cases h
  | succ fuel ih =>
    cases cs with
    | nil => cases h
    | cons c cs =>
      rw [Toml.readBasic] at h
      dsimp only [bind, Except.bind, pure, Except.pure] at h
      split at h
      · cases h
        simp
      · split at h
        · split at h
          · cases h
          · next hescape =>
            split at h
            · cases h
            · next hmore =>
              cases h
              have := ih hmore
              have := readEscape_length hescape
              simp only [List.length_cons]
              omega
        · split at h
          · split at h
            · cases h
            · next hmore =>
              cases h
              have := ih hmore
              simp only [List.length_cons]
              omega
          · cases h

theorem takeOctets_length (room : Nat) (cs : List Char) : (takeOctets room cs).length ≤ cs.length := by
  induction cs generalizing room with
  | nil => simp [takeOctets]
  | cons c cs ih =>
    rw [takeOctets]
    split
    · exact Nat.succ_le_succ (ih _)
    · simp

theorem readQuoted_length (h : readQuoted cs = some (text, rest)) :
    text.toList.length ≤ cs.length := by
  unfold readQuoted at h
  obtain ⟨⟨content, more⟩, hread, heq⟩ := Option.map_eq_some_iff.mp h
  have hcontent : content.length ≤ cs.length := by
    cases hbasic : Toml.readBasic .older (cs.length + 1) cs with
    | error fault =>
      rw [hbasic] at hread
      cases hread
    | ok found =>
      rw [hbasic] at hread
      cases hread
      have := readBasic_length hbasic
      omega
  simp only [List.span_eq_takeWhile_dropWhile, Prod.mk.injEq] at heq
  obtain ⟨rfl, -⟩ := heq
  have hfront : (cs.takeWhile fun c => c != '\\' && c != '"').length ≤ cs.length :=
    (List.takeWhile_prefix _).length_le
  have hkept := takeOctets_length (cs.takeWhile fun c => c != '\\' && c != '"').length
    (cs.takeWhile fun c => c != '\\' && c != '"')
  rw [String.toList_ofList, List.length_append, List.length_drop]
  split <;> omega

theorem readValue_ne_self (hopens : opens c = true) (h : readValue fuel (c :: cs) = some (v, rest)) :
    v ≠ .str (String.ofList (c :: cs)) := by
  have hspace : isSpace c = false := by
    rcases opens_iff.mp hopens with rfl | rfl | rfl | rfl <;> rfl
  cases fuel with
  | zero => cases h
  | succ fuel =>
    rw [readValue, Option.map_eq_some_iff] at h
    obtain ⟨⟨w, more⟩, hread, heq⟩ := h
    obtain rfl : w = v := congrArg Prod.fst heq
    rw [show skipSpaces (c :: cs) = c :: cs by simp [skipSpaces, hspace]] at hread
    intro hself
    split at hread
    · next inner hinner =>
      obtain ⟨⟨text, more⟩, hquoted, hfound⟩ := Option.map_eq_some_iff.mp hread
      cases hfound
      obtain ⟨-, rfl⟩ := List.cons.inj hinner
      have hlength := readQuoted_length hquoted
      rw [Json.str.inj hself, String.toList_ofList, List.length_cons] at hlength
      omega
    · next hinner =>
      cases hread
      have hlength := congrArg (·.toList.length) (Json.str.inj hself)
      rw [hinner] at hlength
      simp at hlength
    · cases hread
    · obtain ⟨found, -, hfound⟩ := Option.map_eq_some_iff.mp hread
      subst hself
      cases hfound
    · obtain ⟨found, -, hfound⟩ := Option.map_eq_some_iff.mp hread
      subst hself
      cases hfound
    · next hquote _ hsingle hlist hrecord =>
      rcases opens_iff.mp hopens with rfl | rfl | rfl | rfl
      · exact hquote cs rfl
      · exact hsingle cs rfl
      · exact hlist cs rfl
      · exact hrecord cs rfl

/-! ## Looks -/

/-- What a text looks like that does not stand for itself. -/
inductive Typed (cs : List Char) : Prop where
  /-- Items between commas, without brackets around them. -/
  | items (h : isBareList cs = true)
  | truth (h : lower cs = ['t', 'r', 'u', 'e'] ∨ lower cs = ['f', 'a', 'l', 's', 'e'])
  | number (h : IsNumber cs)
  /-- A text in quotes, a list or a record that can be read to its end. -/
  | enclosed {v : Json} (hopens : cs.head?.any opens = true)
      (hread : readValue (4 * cs.length + 4) cs = some (v, []))

/-- The characters that numbers are made of. -/
def inNumbers (c : Char) : Prop := c.isDigit = true ∨ c ∈ ['+', '-', '.', 'e', 'E']

instance : DecidablePred inNumbers := fun c =>
  inferInstanceAs (Decidable (c.isDigit = true ∨ c ∈ ['+', '-', '.', 'e', 'E']))

theorem inNumbers_of_isNumber (h : IsNumber cs) (hc : c ∈ cs) : inNumbers c := by
  have hsign : ∀ {sign}, IsSign sign → c ∈ sign → inNumbers c := by
    rintro sign (rfl | rfl | rfl) hc <;> simp_all [inNumbers]
  rcases h with ⟨sign, whole, fraction, exponent, rfl, hs, hwhole, hfraction, -, hexponent⟩ |
    ⟨n, ⟨digits, hcs, -, hdigits, -⟩, -⟩ | ⟨digits, rfl, -, hdigits, -⟩
  · simp only [List.mem_append, List.mem_cons] at hc
    rcases hc with hc | hc | rfl | hc | hc
    · exact hsign hs hc
    · exact .inl (hwhole c hc)
    · exact .inr (by decide)
    · exact .inl (hfraction c hc)
    · rcases hexponent with rfl | ⟨mark, sign', digits, rfl, hmark, hs', hdigits, -⟩
      · cases hc
      · simp only [List.mem_append, List.mem_cons] at hc
        rcases hc with rfl | hc | hc
        · rcases hmark with rfl | rfl <;> exact .inr (by decide)
        · exact hsign hs' hc
        · exact .inl (hdigits c hc)
  · rcases hcs with rfl | rfl
    · exact .inl (hdigits c hc)
    · rcases List.mem_cons.mp hc with rfl | hc
      · exact .inr (by decide)
      · exact .inl (hdigits c hc)
  · rcases List.mem_cons.mp hc with rfl | hc
    · exact .inr (by decide)
    · exact .inl (hdigits c hc)

theorem inNumbers.unmarked (h : inNumbers c) : opens c = false ∧ isSeparator c = false := by
  constructor <;> rw [Bool.eq_false_iff] <;> intro hmark
  · rcases opens_iff.mp hmark with rfl | rfl | rfl | rfl <;> simp [inNumbers] at h
  · simp only [isSeparator, Bool.or_eq_true, decide_eq_true_eq] at hmark
    rcases hmark with (((rfl | rfl) | rfl) | rfl) | rfl <;> simp [inNumbers] at h

theorem isBlank_of_isSpace (h : isSpace c = true) : isBlank c = true := by
  simp only [isSpace, Bool.or_eq_true, Bool.and_eq_true, decide_eq_true_eq, Char.le_def,
    UInt32.le_iff_toNat_le] at h
  simp only [isBlank, Bool.or_eq_true, Bool.and_eq_true, decide_eq_true_eq, beq_iff_eq]
  rcases h with rfl | ⟨⟨hlow, hhigh⟩, -⟩
  · decide
  · have hlow : 9 ≤ c.toNat := hlow
    have hhigh : c.toNat ≤ 13 := hhigh
    omega

theorem isSpace_of_trim (htrim : trim (c :: cs) = c :: cs) : isSpace c = false := by
  have hfront : trimFront (c :: cs) = c :: cs := by
    rw [← htrim, trim, ← trimFront_trimBack, trimFront, trimFront, List.dropWhile_idempotent]
  rw [Bool.eq_false_iff]
  intro hspace
  have hshort := (List.dropWhile_suffix (l := cs) isBlank).length_le
  have hlength := congrArg List.length hfront
  rw [trimFront, List.dropWhile_cons_of_pos (isBlank_of_isSpace hspace), List.length_cons] at hlength
  omega

/-- A text without blanks at its ends has none at the end of any of its parts. -/
theorem eq_nil_of_skipSpaces (htrim : trim cs = cs) (hrest : rest <:+ cs)
    (h : skipSpaces rest = []) : rest = [] := by
  rcases List.eq_nil_or_concat rest with rfl | ⟨front, c, rfl⟩
  · rfl
  · have hc : isBlank c = true :=
      isBlank_of_isSpace (List.dropWhile_eq_nil_iff.mp h c (by simp))
    obtain ⟨start, rfl⟩ := hrest
    have hshort : (trim (start ++ front)).length ≤ (start ++ front).length :=
      (List.rdropWhile_prefix isBlank _).length_le.trans (List.dropWhile_suffix isBlank).length_le
    have hlength := congrArg List.length htrim
    rw [List.concat_eq_append, ← List.append_assoc, trim_concat hc] at hlength
    simp only [List.length_append, List.length_singleton] at hlength hshort
    omega

theorem afterWord_eq_some {word : List Char} :
    afterWord word cs = some rest ↔
      lower (cs.take word.length) = lower word ∧ cs.drop word.length = rest := by
  simp [afterWord, sameIgnoringCase]

theorem readTruth_whole (htrim : trim cs = cs) :
    (∃ b rest, readTruth cs = some (b, rest) ∧ skipSpaces rest = []) ↔
      lower cs = ['t', 'r', 'u', 'e'] ∨ lower cs = ['f', 'a', 'l', 's', 'e'] := by
  have hword : ∀ {word rest}, afterWord word cs = some rest → skipSpaces rest = [] →
      lower cs = lower word := by
    intro word rest h hspaces
    obtain ⟨hlower, rfl⟩ := afterWord_eq_some.mp h
    have hnil := eq_nil_of_skipSpaces htrim (List.drop_suffix _ _) hspaces
    rwa [List.take_of_length_le (List.drop_eq_nil_iff.mp hnil)] at hlower
  constructor
  · rintro ⟨b, rest, h, hspaces⟩
    unfold readTruth at h
    split at h
    · next htrue =>
      cases h
      exact .inl (hword htrue hspaces)
    · obtain ⟨more, hfalse, heq⟩ := Option.map_eq_some_iff.mp h
      cases heq
      exact .inr (hword hfalse hspaces)
  · have hall : ∀ word : List Char, lower cs = lower word → afterWord word cs = some [] := by
      intro word h
      have hlength : cs.length = word.length := by simpa [lower] using congrArg List.length h
      rw [afterWord_eq_some, ← hlength, List.take_length, List.drop_length]
      exact ⟨h, rfl⟩
    rintro (h | h)
    · exact ⟨true, [], by rw [readTruth, hall ['t', 'r', 'u', 'e'] h], rfl⟩
    · have hnot : afterWord ['t', 'r', 'u', 'e'] cs = none := by
        rw [Option.eq_none_iff_forall_ne_some]
        intro rest htrue
        obtain ⟨hlower, -⟩ := afterWord_eq_some.mp htrue
        rw [lower, List.map_take, ← lower, h] at hlower
        cases hlower
      exact ⟨false, [], by rw [readTruth, hnot, hall ['f', 'a', 'l', 's', 'e'] h]; rfl, rfl⟩

/-! ## What stands for itself -/

theorem readValue_of_not_opens (hspace : isSpace c = false) (hopens : opens c = false) :
    readValue (fuel + 1) (c :: cs) =
      ((readTruth (c :: cs)).map fun (b, rest) => (Json.bool b, skipSpaces rest)).or
        (some (plainValue (trim ((c :: cs).takeWhile fun c => !isSeparator c)),
          skipSpaces ((c :: cs).dropWhile fun c => !isSeparator c))) := by
  rw [readValue, show skipSpaces (c :: cs) = c :: cs by simp [skipSpaces, hspace]]
  split
  iterate 5
    · next heq => rw [(List.cons.inj heq).1] at hopens; cases hopens
  · cases readTruth (c :: cs) with
    | none => simp [List.span_eq_takeWhile_dropWhile]
    | some found => rfl

theorem isBareList_cons : isBareList (c :: cs) = ((c :: cs).contains ',' && !opens c) := by
  have hmarks : (c = '[' || c = '\x7b' || c = '"' || c = '\'' : Bool) = opens c := by
    rw [Bool.eq_iff_iff, opens_iff]
    simp only [Bool.or_eq_true, decide_eq_true_eq]
    tauto
  rw [isBareList, hmarks]

theorem inNumbers.lowered (h : inNumbers c) : inNumbers (lowerChar c) := by
  rcases h with hdigit | hmem
  · have hcode := toNat_lowerChar c
    simp only [Char.isDigit, Bool.and_eq_true, decide_eq_true_eq, UInt32.le_iff_toNat_le] at hdigit
    have hhigh : c.toNat ≤ 57 := hdigit.2
    rw [if_neg (by omega)] at hcode
    rw [Char.toNat_inj.mp hcode]
    exact .inl (by simpa [Char.isDigit, UInt32.le_iff_toNat_le] using hdigit)
  · simp only [List.mem_cons, List.not_mem_nil, or_false] at hmem
    rcases hmem with rfl | rfl | rfl | rfl | rfl <;> decide

theorem readTruth_of_number (h : IsNumber (c :: cs)) : readTruth (c :: cs) = none := by
  have hword : ∀ d word, ¬ inNumbers (lowerChar d) → afterWord (d :: word) (c :: cs) = none := by
    refine fun d word hd => Option.eq_none_iff_forall_ne_some.mpr fun rest heq => hd ?_
    obtain ⟨hlower, -⟩ := afterWord_eq_some.mp heq
    rw [← (List.cons.inj hlower).1]
    exact (inNumbers_of_isNumber h List.mem_cons_self).lowered
  rw [readTruth, hword 't' _ (by decide), hword 'f' _ (by decide)]
  rfl

theorem typed_iff (hlist : isBareList (c :: cs) = false) (hopens : opens c = false) :
    Typed (c :: cs) ↔
      (lower (c :: cs) = ['t', 'r', 'u', 'e'] ∨ lower (c :: cs) = ['f', 'a', 'l', 's', 'e']) ∨
        IsNumber (c :: cs) := by
  constructor
  · rintro (h | h | h | ⟨h, -⟩)
    · rw [hlist] at h
      cases h
    · exact .inl h
    · exact .inr h
    · rw [List.head?_cons, Option.any_some, hopens] at h
      cases h
  · rintro (h | h)
    · exact .truth h
    · exact .number h

theorem structuredValue_of_opens (hopens : opens c = true) (hlist : isBareList (c :: cs) = false) :
    structuredValue (c :: cs) = .str (String.ofList (c :: cs)) ↔ ¬ Typed (c :: cs) := by
  unfold structuredValue
  split
  · next v hread =>
    refine iff_of_false (readValue_ne_self hopens hread) (not_not_intro (.enclosed ?_ hread))
    simpa using hopens
  · next hread =>
    refine iff_of_true rfl ?_
    rintro (h | h | h | ⟨-, h⟩)
    · rw [hlist] at h
      cases h
    · have hletter : lowerChar c = 't' ∨ lowerChar c = 'f' :=
        h.imp (fun h => (List.cons.inj h).1) fun h => (List.cons.inj h).1
      rcases opens_iff.mp hopens with rfl | rfl | rfl | rfl <;> exact absurd hletter (by decide)
    · rw [(inNumbers_of_isNumber h List.mem_cons_self).unmarked.1] at hopens
      cases hopens
    · exact hread _ h

/-- A text without separators that is no truth value is taken as a whole. -/
theorem structuredValue_eq_plainValue (htrim : trim (c :: cs) = c :: cs) (hopens : opens c = false)
    (htruth : readTruth (c :: cs) = none) (hwhole : ∀ d ∈ c :: cs, isSeparator d = false) :
    structuredValue (c :: cs) = plainValue (c :: cs) := by
  have hinside : ∀ d ∈ c :: cs, (!isSeparator d) = true := by simpa using hwhole
  rw [structuredValue, readValue_of_not_opens (isSpace_of_trim htrim) hopens, htruth,
    List.takeWhile_eq_self_iff.mpr hinside, List.dropWhile_eq_nil_iff.mpr hinside, htrim]
  rfl

theorem structuredValue_of_not_opens (htrim : trim (c :: cs) = c :: cs) (hopens : opens c = false)
    (hlist : isBareList (c :: cs) = false) :
    structuredValue (c :: cs) = .str (String.ofList (c :: cs)) ↔ ¬ Typed (c :: cs) := by
  rw [typed_iff hlist hopens, ← readTruth_whole htrim]
  cases htruth : readTruth (c :: cs) with
  | some found =>
    obtain ⟨b, rest⟩ := found
    have hnumber : ¬ IsNumber (c :: cs) := fun h => by
      rw [readTruth_of_number h] at htruth
      cases htruth
    rw [structuredValue, readValue_of_not_opens (isSpace_of_trim htrim) hopens, htruth]
    cases hrest : skipSpaces rest <;> simp [hnumber, hrest]
  | none =>
    rw [or_iff_right (by simp)]
    by_cases hwhole : ∀ d ∈ c :: cs, isSeparator d = false
    · rw [structuredValue_eq_plainValue htrim hopens htruth hwhole, plainValue_eq_str_iff]
    · -- The text goes on behind a separator, which no number has.
      have hnumber : ¬ IsNumber (c :: cs) := fun h =>
        hwhole fun d hd => (inNumbers_of_isNumber h hd).unmarked.2
      rw [structuredValue, readValue_of_not_opens (isSpace_of_trim htrim) hopens, htruth]
      cases hrest : (c :: cs).dropWhile (fun c => !isSeparator c) with
      | nil => exact absurd (by simpa using List.dropWhile_eq_nil_iff.mp hrest) hwhole
      | cons d more =>
        have hd := List.head?_dropWhile_not (fun c => !isSeparator c) (c :: cs)
        rw [hrest] at hd
        simp only [List.head?_cons, isSeparator, Bool.not_eq_false', Bool.or_eq_true,
          decide_eq_true_eq] at hd
        have hspace : isSpace d = false := by
          rcases hd with (((rfl | rfl) | rfl) | rfl) | rfl <;> rfl
        simp [hnumber, skipSpaces, hspace]

/-- **What stands for itself.** Of the texts without blanks at their ends exactly those stand for
themselves that do not look like something else. -/
theorem valueOf_eq_str_iff (hne : text ≠ "") (htrim : trimmed text = text) :
    valueOf text = .str text ↔ ¬ Typed text.toList := by
  have hcs : trim text.toList = text.toList := by
    simpa [trimmed] using congrArg String.toList htrim
  obtain ⟨c, cs, hcons⟩ := List.exists_cons_of_ne_nil fun hnil => hne (String.toList_inj.mp hnil)
  have hself : String.ofList (c :: cs) = text := by rw [← hcons, String.ofList_toList]
  rw [valueOf, hcs, hcons]
  rw [hcons] at hcs
  split
  · next hlist => simpa using Typed.items hlist
  · next hlist =>
    have hlist : isBareList (c :: cs) = false := by simpa using hlist
    rw [← hself]
    cases hopens : opens c with
    | true => exact structuredValue_of_opens hopens hlist
    | false => exact structuredValue_of_not_opens hcs hopens hlist

/-- Whether a name looks like nothing else, in whatever case it is written. -/
def Unmistakable (name : List Char) : Prop :=
  ',' ∉ name ∧ name.head?.any (fun c => !opens c && !decide (inNumbers c)) = true ∧
    name ≠ ['t', 'r', 'u', 'e'] ∧ name ≠ ['f', 'a', 'l', 's', 'e']

instance : DecidablePred Unmistakable := fun _ => inferInstanceAs (Decidable (_ ∧ _ ∧ _ ∧ _))

theorem Unmistakable.not_typed (h : Unmistakable (lower cs)) : ¬ Typed cs := by
  obtain ⟨hcomma, hhead, htrue, hfalse⟩ := h
  cases cs with
  | nil => cases hhead
  | cons c cs =>
    obtain ⟨hopens, hnumber⟩ : opens (lowerChar c) = false ∧ ¬ inNumbers (lowerChar c) := by
      simpa [lower] using hhead
    rintro (hlist | htruth | h | ⟨h, -⟩)
    · rw [isBareList_cons, Bool.and_eq_true, List.contains_iff_mem] at hlist
      exact hcomma ((mem_lower_iff (by decide)).mpr hlist.1)
    · exact htruth.elim htrue hfalse
    · exact hnumber (inNumbers_of_isNumber h List.mem_cons_self).lowered
    · have hc : opens c = true := by simpa using h
      rcases opens_iff.mp hc with rfl | rfl | rfl | rfl <;> cases hopens

theorem valueOf_numeral {n : Nat} (htrim : trimmed text = text) (h : IsNumeral text.toList n)
    (hn : n ≤ maxWord64) : valueOf text = Json.ofNat n := by
  have hcs : trim text.toList = text.toList := by
    simpa [trimmed] using congrArg String.toList htrim
  have hnumber : IsNumber text.toList := .inr (.inl ⟨n, h, hn⟩)
  have hmarks := fun c (hc : c ∈ text.toList) => (inNumbers_of_isNumber hnumber hc).unmarked
  have hpoint : '.' ∉ text.toList := by
    obtain ⟨digits, hdigits, -, hall, -⟩ := h
    have hnot : '.' ∉ digits := fun hmem => by cases hall _ hmem
    rcases hdigits with heq | heq <;> simp [heq, hnot]
  have hplain : plainValue text.toList = Json.ofNat n := by
    simp [plainValue, hpoint, readWhole, readNumeral_eq_some_iff.mpr ⟨h, hn⟩]
  cases hcons : text.toList with
  | nil =>
    rw [hcons] at h
    simp [IsNumeral] at h
  | cons c cs =>
    rw [hcons] at hcs hnumber hmarks hplain
    have hlist : isBareList (c :: cs) = false := by
      have hcomma : ',' ∉ c :: cs := fun hmem => by cases (hmarks _ hmem).2
      simp [isBareList_cons, hcomma]
    rw [valueOf, hcons, hcs, hlist, if_neg Bool.false_ne_true,
      structuredValue_eq_plainValue hcs (hmarks c List.mem_cons_self).1
        (readTruth_of_number hnumber) fun d hd => (hmarks d hd).2, hplain]

end LanguageClient.Variables
