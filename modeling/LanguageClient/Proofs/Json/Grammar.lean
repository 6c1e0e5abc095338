import LanguageClient.Json.Parser
import LanguageClient.Proofs.Text.Readings

/-!
# The texts of values

`Denotes d text v` says that the octets `text` are a text of the value `v` with containers nested at most
`d` deep. It is the grammar of the format, production by production, and knows nothing of how a text is
read: numbers are digits with a point and an exponent, strings are pieces that each stand for some
octets, and lists and records are what stands between their brackets, with space wherever space may
stand. A record is worth what inserting its members one by one leaves, so that a later member replaces
an earlier one of the same key.

This file holds the grammar, and the reader's side of it for numbers (`number_numeral`, `number_sound`)
and for strings (`string_eq_ok_iff`). `Proofs/Json/Reader.lean` goes on with containers.
-/

namespace LanguageClient.Json

open LanguageClient.Decimal LanguageClient.Text

/-! ## Numbers -/

structure IsDigits (octets : List UInt8) : Prop where
  nonempty : octets ≠ []
  digits : ∀ b ∈ octets, isDigit b = true

/-- The part of a number before the point: a zero, or digits that do not begin with one. -/
def IsWhole (octets : List UInt8) : Prop :=
  octets = [0x30] ∨ IsDigits octets ∧ octets.head? ≠ some 0x30

/-- An exponent: its letter in either case, a sign or none, and digits. -/
structure Exponent where
  letter : UInt8
  sign : List UInt8
  digits : List UInt8
  letter_eq : letter = 0x65 ∨ letter = 0x45
  sign_eq : sign = [] ∨ sign = [0x2B] ∨ sign = [0x2D]
  isDigits : IsDigits digits

namespace Exponent

def octets (x : Exponent) : List UInt8 := x.letter :: (x.sign ++ x.digits)

def power (x : Exponent) : Int :=
  if x.sign = [0x2D] then -(digitsFrom 0 x.digits : Int) else digitsFrom 0 x.digits

end Exponent

def exponentOctets (x : Option Exponent) : List UInt8 := x.elim [] Exponent.octets

def pointedOctets : List UInt8 → List UInt8
  | [] => []
  | b :: digits => 0x2E :: b :: digits

structure Numeral where
  negative : Bool
  whole : List UInt8
  fraction : List UInt8
  exponent : Option Exponent
  isWhole : IsWhole whole
  digits : ∀ b ∈ fraction, isDigit b = true

namespace Numeral

def unsigned (x : Numeral) : List UInt8 :=
  x.whole ++ (pointedOctets x.fraction ++ exponentOctets x.exponent)

def octets (x : Numeral) : List UInt8 := (if x.negative then [0x2D] else []) ++ x.unsigned

/-- The number that is meant, unless it is too large. Digits alone are an integer where they fit one,
and everything else is the nearest double-precision number. -/
def value? (x : Numeral) : Option Number :=
  if x.fraction = [] ∧ x.exponent = none then integer x.negative (digitsFrom 0 x.whole)
  else (Binary64.ofDecimal x.negative (digitsFrom 0 (x.whole ++ x.fraction))
    (x.exponent.elim 0 Exponent.power - x.fraction.length)).map .float

end Numeral

/-! ## Strings -/

/-- A piece of a string as it is written, and the octets that it stands for: an octet that stands for
itself, an escape of one letter, the code of a character, or the codes of the two halves of one. -/
inductive Piece : List UInt8 → List UInt8 → Prop where
  | plain {b : UInt8} (hcontrol : ¬ b < 0x20) (hquote : b ≠ 0x22) (hslash : b ≠ 0x5C) : Piece [b] [b]
  | short {e c : UInt8} (h : shortEscape e = some c) : Piece [0x5C, e] [c]
  | code {a b c d : UInt8} {n : Nat} (h : hexValue4 a b c d = some n) (hn : n < 0xD800 ∨ 0xDFFF < n) :
      Piece [0x5C, 0x75, a, b, c, d] (Utf8.encodeChar (Char.ofNat n))
  | pair {a b c d a' b' c' d' : UInt8} {n m : Nat} (h : hexValue4 a b c d = some n)
      (hn : 0xD800 ≤ n ∧ n ≤ 0xDBFF) (h' : hexValue4 a' b' c' d' = some m)
      (hm : 0xDC00 ≤ m ∧ m ≤ 0xDFFF) :
      Piece [0x5C, 0x75, a, b, c, d, 0x5C, 0x75, a', b', c', d']
        (Utf8.encodeChar (Char.ofNat ((n - 0xD800) * 1024 + (m - 0xDC00) + 0x10000)))

/-- What follows an opening quote up to and including the closing one, and the octets that it stands
for. -/
inductive Quoted : List UInt8 → List UInt8 → Prop where
  | close : Quoted [0x22] []
  | piece {w m ws ms : List UInt8} (h : Piece w m) (hrest : Quoted ws ms) : Quoted (w ++ ws) (m ++ ms)

/-! ## Values -/

def Spaces (octets : List UInt8) : Prop := ∀ b ∈ octets, isSpace b = true

structure Spaced where
  front : List UInt8
  text : List UInt8
  back : List UInt8
  spaces_front : Spaces front
  spaces_back : Spaces back

def Spaced.octets (s : Spaced) : List UInt8 := s.front ++ (s.text ++ s.back)

structure Item extends Spaced where
  value : Json

/-- A member of a record: its key in quotes, and the value behind the colon. -/
structure Member where
  key : String
  /-- What follows the opening quote of the key. -/
  quoted : List UInt8
  /-- The space before the key. -/
  front : List UInt8
  /-- The space before the colon. -/
  gap : List UInt8
  item : Item
  isQuoted : Quoted quoted (Utf8.encode key.toList)
  spaces_front : Spaces front
  spaces_gap : Spaces gap

namespace Member

def octets (m : Member) : List UInt8 :=
  m.front ++ 0x22 :: (m.quoted ++ (m.gap ++ 0x3A :: m.item.octets))

def entry (m : Member) : String × Json := (m.key, m.item.value)

end Member

/-- What stands between brackets: parts with commas between them, or space if there are no parts. -/
def listed (space : List UInt8) : List (List UInt8) → List UInt8
  | [] => space
  | part :: parts => part ++ parts.flatMap (0x2C :: ·)

/-- The octets are a text of the value, with containers nested at most so deep. -/
inductive Denotes : Nat → List UInt8 → Json → Prop where
  | null {d : Nat} : Denotes d [0x6E, 0x75, 0x6C, 0x6C] .null
  | true {d : Nat} : Denotes d [0x74, 0x72, 0x75, 0x65] (.bool true)
  | false {d : Nat} : Denotes d [0x66, 0x61, 0x6C, 0x73, 0x65] (.bool false)
  | num {d : Nat} {x : Numeral} {n : Number} (h : x.value? = some n) : Denotes d x.octets (.num n)
  | str {d : Nat} {quoted : List UInt8} {s : String} (h : Quoted quoted (Utf8.encode s.toList)) :
      Denotes d (0x22 :: quoted) (.str s)
  | arr {d : Nat} {space : List UInt8} {items : List Item} (hspace : Spaces space)
      (h : ∀ i ∈ items, Denotes d i.text i.value) :
      Denotes (d + 1) (0x5B :: (listed space (items.map fun i => i.octets) ++ [0x5D]))
        (.arr (items.map Item.value))
  | obj {d : Nat} {space : List UInt8} {ms : List Member} (hspace : Spaces space)
      (h : ∀ m ∈ ms, Denotes d m.item.text m.item.value) :
      Denotes (d + 1) (0x7B :: (listed space (ms.map Member.octets) ++ [0x7D]))
        (ofMembers (ms.map Member.entry))

/-- The octets are a text of the value, with space around it. -/
def IsText (octets : List UInt8) (v : Json) : Prop :=
  ∃ s : Spaced, octets = s.octets ∧ Denotes maxDepth s.text v

/-! ## Digits -/

/-- The text does not go on with digits. -/
def Stopped (rest : List UInt8) : Prop := ∀ b ∈ rest.head?, isDigit b = false

/-- The text does not go on with any part of a number. -/
def Delimited (rest : List UInt8) : Prop :=
  ∀ b ∈ rest.head?, isDigit b = false ∧ b ≠ 0x2E ∧ b ≠ 0x65 ∧ b ≠ 0x45

theorem Delimited.stopped {rest : List UInt8} (h : Delimited rest) : Stopped rest :=
  fun b hb => (h b hb).1

variable {b : UInt8}

theorem stopped_cons (h : isDigit b = false) (rest : List UInt8) :
    Stopped (b :: rest) := by
  intro b' hb'
  obtain rfl := Option.some.inj hb'
  exact h

theorem beq_of_isDigit {k : UInt8} (hb : isDigit b = true) (hk : isDigit k = false) :
    (b == k) = false := by
  rw [beq_eq_false_iff_ne]
  rintro rfl
  rw [hb] at hk
  cases hk

theorem isSpace_of_isDigit (h : isDigit b = true) : isSpace b = false := by
  simp [isSpace, beq_of_isDigit h (k := 0x20) rfl, beq_of_isDigit h (k := 0x0A) rfl,
    beq_of_isDigit h (k := 0x0D) rfl, beq_of_isDigit h (k := 0x09) rfl]

variable {negative : Bool} {n places : Nat} {plain : Option Number} {digits rest : List UInt8}

theorem takeWhile_digits (h : ∀ b ∈ digits, isDigit b = true) (hrest : Stopped rest) :
    (digits ++ rest).takeWhile isDigit = digits := by
  rw [List.takeWhile_append_of_pos h]
  cases rest with
  | nil => simp
  | cons b rest => simp [hrest b rfl]

theorem dropWhile_digits (h : ∀ b ∈ digits, isDigit b = true) (hrest : Stopped rest) :
    (digits ++ rest).dropWhile isDigit = rest := by
  rw [List.dropWhile_append_of_pos h]
  cases rest with
  | nil => rfl
  | cons b rest => simp [hrest b rfl]

theorem isDigits_takeWhile (hb : isDigit b = true) (bytes : List UInt8) :
    IsDigits ((b :: bytes).takeWhile isDigit) where
  nonempty := by simp [hb]
  digits := fun _ h => (List.mem_takeWhile_imp h)

theorem digitsFrom_append (acc : Nat) (front back : List UInt8) :
    digitsFrom acc (front ++ back) = digitsFrom (digitsFrom acc front) back :=
  List.foldl_append

/-! ## Reading numbers

The reader takes a number apart in the order in which it is written. There is one lemma for each part,
about any text behind it that does not go on with that part. -/

theorem exponent_of_delimited (h : Delimited rest) :
    exponent negative n places plain rest = finishNumber plain rest := by
  cases rest with
  | nil => rfl
  | cons b rest =>
    obtain ⟨-, -, he, hE⟩ := h b rfl
    simp [exponent, he, hE]

theorem exponentDigits_digits (negative : Bool) (n places : Nat) (h : IsDigits digits)
    (hrest : Stopped rest) (below : Bool) :
    exponentDigits negative n places below (digits ++ rest) =
      finishNumber ((Binary64.ofDecimal negative n
        ((if below then -(digitsFrom 0 digits : Int) else digitsFrom 0 digits) - places)).map .float)
        rest := by
  have htake := takeWhile_digits h.digits hrest
  have hdrop := dropWhile_digits h.digits hrest
  obtain ⟨b, bs, rfl⟩ := List.exists_cons_of_ne_nil h.nonempty
  rw [List.cons_append] at htake hdrop ⊢
  rw [exponentDigits, if_pos (h.digits b List.mem_cons_self)]
  dsimp only
  rw [htake, hdrop]

theorem exponent_octets (x : Exponent) (h : Stopped rest) :
    exponent negative n places plain (x.octets ++ rest) =
      finishNumber ((Binary64.ofDecimal negative n (x.power - places)).map .float) rest := by
  obtain ⟨letter, sign, digits, hletter, hsign, hdigits⟩ := x
  have hread := exponentDigits_digits negative n places hdigits h
  have hmark : (letter == 0x65 || letter == 0x45) = true := by
    rcases hletter with rfl | rfl <;> rfl
  change exponent negative n places plain (letter :: (sign ++ digits ++ rest)) = _
  rcases hsign with rfl | rfl | rfl
  · -- A digit is no sign.
    obtain ⟨b, bs, rfl⟩ := List.exists_cons_of_ne_nil hdigits.nonempty
    have hb := hdigits.digits b List.mem_cons_self
    have hplus := beq_of_isDigit hb (k := 0x2B) rfl
    have hminus := beq_of_isDigit hb (k := 0x2D) rfl
    have hfalse := hread false
    rw [List.cons_append] at hfalse
    rw [exponent.eq_def, List.nil_append, List.cons_append]
    simp [hmark, hplus, hminus, hfalse, Exponent.power]
  · rw [exponent.eq_def]
    exact (if_pos hmark).trans (hread false)
  · rw [exponent.eq_def]
    exact (if_pos hmark).trans (hread true)

theorem fraction_of_no_point (h : ∀ b ∈ rest.head?, b ≠ 0x2E) :
    fraction negative n rest = exponent negative n 0 (integer negative n) rest := by
  cases rest with
  | nil => rfl
  | cons b rest => simp [fraction, h b rfl]

theorem fraction_digits (h : IsDigits digits) (hrest : Stopped rest) :
    fraction negative n (pointedOctets digits ++ rest) =
      exponent negative (digitsFrom n digits) digits.length
        ((Binary64.ofDecimal negative (digitsFrom n digits) (-(digits.length : Int))).map .float)
        rest := by
  have htake := takeWhile_digits h.digits hrest
  have hdrop := dropWhile_digits h.digits hrest
  obtain ⟨b, bs, rfl⟩ := List.exists_cons_of_ne_nil h.nonempty
  change fraction negative n (0x2E :: (b :: bs ++ rest)) = _
  rw [fraction.eq_def]
  dsimp only
  rw [beq_self_eq_true, if_pos rfl, htake, hdrop]

theorem number_whole (h : IsWhole digits) (hrest : Stopped rest) :
    number negative (digits ++ rest) = fraction negative (digitsFrom 0 digits) rest := by
  rcases h with rfl | ⟨hdigits, hhead⟩
  · change number negative (0x30 :: rest) = fraction negative 0 rest
    cases rest with
    | nil => rfl
    | cons b rest => simp [number, hrest b rfl]
  · have htake := takeWhile_digits hdigits.digits hrest
    have hdrop := dropWhile_digits hdigits.digits hrest
    obtain ⟨b, bs, rfl⟩ := List.exists_cons_of_ne_nil hdigits.nonempty
    have hzero : (b == 0x30) = false := by simpa using hhead
    rw [List.cons_append] at htake hdrop ⊢
    rw [number.eq_def]
    dsimp only
    rw [hzero, if_neg Bool.false_ne_true, if_pos (hdigits.digits b List.mem_cons_self), htake, hdrop]

theorem stopped_exponentOctets (x : Option Exponent) (h : Delimited rest) :
    Stopped (exponentOctets x ++ rest) := by
  cases x with
  | none => exact h.stopped
  | some x =>
    refine stopped_cons ?_ _
    rcases x.letter_eq with heq | heq <;> rw [heq] <;> rfl

theorem stopped_pointedOctets (hrest : Stopped rest) : Stopped (pointedOctets digits ++ rest) := by
  cases digits with
  | nil => exact hrest
  | cons b digits => exact stopped_cons (b := 0x2E) rfl _

theorem number_numeral (x : Numeral) (h : Delimited rest) :
    number x.negative (x.unsigned ++ rest) = finishNumber x.value? rest := by
  obtain ⟨negative, whole, digits, exp, hwhole, hdigits⟩ := x
  have hexp := stopped_exponentOctets exp h
  have hpoint : Stopped (pointedOctets digits ++ (exponentOctets exp ++ rest)) :=
    stopped_pointedOctets hexp
  change number negative (whole ++ (pointedOctets digits ++ exponentOctets exp) ++ rest) = _
  rw [List.append_assoc, List.append_assoc, number_whole hwhole hpoint]
  cases digits with
  | nil =>
    cases exp with
    | none =>
      change fraction negative (digitsFrom 0 whole) rest = _
      rw [fraction_of_no_point fun b hb => (h b hb).2.1, exponent_of_delimited h]
      rfl
    | some x =>
      have hnone : ∀ b ∈ (x.octets ++ rest).head?, b ≠ 0x2E := by
        intro b hb
        obtain rfl := Option.some.inj hb
        rcases x.letter_eq with heq | heq <;> rw [heq] <;> decide
      change fraction negative (digitsFrom 0 whole) (x.octets ++ rest) = _
      rw [fraction_of_no_point hnone, exponent_octets x h.stopped]
      simp [Numeral.value?]
  | cons b digits =>
    rw [fraction_digits ⟨List.cons_ne_nil _ _, hdigits⟩ hexp]
    cases exp with
    | none =>
      change exponent _ _ _ _ rest = _
      rw [exponent_of_delimited h]
      simp [Numeral.value?, digitsFrom_append]
    | some x =>
      change exponent _ _ _ _ (x.octets ++ rest) = _
      rw [exponent_octets x h.stopped]
      simp [Numeral.value?, digitsFrom_append]

/-! What is read as a number is written as one. -/

variable {v : Json} {bytes after : List UInt8}

theorem finishNumber_eq_ok {o : Option Number} :
    finishNumber o rest = .ok (v, after) ↔ ∃ m, o = some m ∧ v = .num m ∧ rest = after := by
  cases o with
  | none => simp [finishNumber, stopBehind]
  | some m => simp [finishNumber, eq_comm]

theorem exponentDigits_sound {below : Bool}
    (h : exponentDigits negative n places below bytes = .ok (v, rest)) :
    ∃ digits m, IsDigits digits ∧ bytes = digits ++ rest ∧ v = .num m ∧
      (Binary64.ofDecimal negative n
        ((if below then -(digitsFrom 0 digits : Int) else digitsFrom 0 digits) - places)).map .float =
        some m := by
  unfold exponentDigits at h
  split at h
  · cases h
  · next b bytes =>
    split at h
    · next hb =>
      obtain ⟨m, hvalue, hv, hrest⟩ := finishNumber_eq_ok.mp h
      exact ⟨_, m, isDigits_takeWhile hb bytes, by rw [← hrest, List.takeWhile_append_dropWhile], hv,
        hvalue⟩
    · cases h

/-- The octets are an exponent or none, and `v` is the number before it with that exponent. -/
def Exponentiates (negative : Bool) (n places : Nat) (plain : Option Number) (bytes : List UInt8)
    (v : Json) (rest : List UInt8) : Prop :=
  ∃ (x : Option Exponent) (m : Number), bytes = exponentOctets x ++ rest ∧ v = .num m ∧
    x.elim plain (fun x => (Binary64.ofDecimal negative n (x.power - places)).map .float) = some m

theorem exponentiates_of_finish (h : finishNumber plain bytes = .ok (v, rest)) :
    Exponentiates negative n places plain bytes v rest := by
  obtain ⟨m, hvalue, hv, hrest⟩ := finishNumber_eq_ok.mp h
  exact ⟨none, m, hrest, hv, hvalue⟩

theorem exponentiates_of_digits {letter : UInt8} (hletter : (letter == 0x65 || letter == 0x45) = true)
    {sign : List UInt8} (hsign : sign = [] ∨ sign = [0x2B] ∨ sign = [0x2D]) {below : Bool}
    (hbelow : below = decide (sign = [0x2D]))
    (h : exponentDigits negative n places below bytes = .ok (v, rest)) :
    Exponentiates negative n places plain (letter :: (sign ++ bytes)) v rest := by
  obtain ⟨digits, m, hdigits, rfl, hv, hvalue⟩ := exponentDigits_sound h
  have hletter : letter = 0x65 ∨ letter = 0x45 := by simpa using hletter
  refine ⟨some ⟨letter, sign, digits, hletter, hsign, hdigits⟩, m, ?_, hv, ?_⟩
  · simp [exponentOctets, Exponent.octets]
  · simpa [Exponent.power, hbelow] using hvalue

theorem exponent_sound (h : exponent negative n places plain bytes = .ok (v, rest)) :
    Exponentiates negative n places plain bytes v rest := by
  unfold exponent at h
  split at h
  · exact exponentiates_of_finish h
  · split at h
    · next hletter =>
      split at h
      · cases h
      · split at h
        · next hplus =>
          rw [beq_iff_eq.mp hplus]
          exact exponentiates_of_digits hletter (.inr (.inl rfl)) rfl h
        · split at h
          · next hminus =>
            rw [beq_iff_eq.mp hminus]
            exact exponentiates_of_digits hletter (.inr (.inr rfl)) rfl h
          · exact exponentiates_of_digits hletter (.inl rfl) rfl h
    · exact exponentiates_of_finish h

/-- The octets are a point with digits or none, and an exponent or none, and `v` is the number that
begins with `n` and goes on with them. -/
def Continues (negative : Bool) (n : Nat) (bytes : List UInt8) (v : Json) (rest : List UInt8) : Prop :=
  ∃ (digits : List UInt8) (x : Option Exponent) (m : Number), (∀ b ∈ digits, isDigit b = true) ∧
    bytes = pointedOctets digits ++ (exponentOctets x ++ rest) ∧ v = .num m ∧
    (if digits = [] ∧ x = none then integer negative n
      else (Binary64.ofDecimal negative (digitsFrom n digits)
        (x.elim 0 Exponent.power - digits.length)).map .float) = some m

theorem continues_of_exponent (h : exponent negative n 0 (integer negative n) bytes = .ok (v, rest)) :
    Continues negative n bytes v rest := by
  obtain ⟨x, m, hbytes, hv, hvalue⟩ := exponent_sound h
  refine ⟨[], x, m, List.forall_mem_nil _, hbytes, hv, ?_⟩
  cases x with
  | none => exact hvalue
  | some x => simpa [digitsFrom] using hvalue

theorem fraction_sound (h : fraction negative n bytes = .ok (v, rest)) :
    Continues negative n bytes v rest := by
  unfold fraction at h
  split at h
  · exact continues_of_exponent h
  · next b bytes =>
    split at h
    · next hpoint =>
      obtain rfl := beq_iff_eq.mp hpoint
      dsimp only at h
      split at h
      · split at h <;> cases h
      · next hsome =>
        obtain ⟨x, m, hbehind, hv, hvalue⟩ := exponent_sound h
        obtain ⟨d, ds, hcons⟩ := List.exists_cons_of_ne_nil hsome
        refine ⟨bytes.takeWhile isDigit, x, m, fun _ => List.mem_takeWhile_imp, ?_, hv, ?_⟩
        · rw [← hbehind, hcons]
          change _ = 0x2E :: (d :: ds ++ _)
          rw [← hcons, List.takeWhile_append_dropWhile]
        · rw [if_neg fun hnone => hsome hnone.1]
          cases x with
          | none => simpa using hvalue
          | some x => exact hvalue
    · exact continues_of_exponent h

theorem exists_numeral_of_continues {whole : List UInt8} (hwhole : IsWhole whole)
    (h : Continues negative (digitsFrom 0 whole) bytes v rest) :
    ∃ (x : Numeral) (m : Number), x.negative = negative ∧ whole ++ bytes = x.unsigned ++ rest ∧
      v = .num m ∧ x.value? = some m := by
  obtain ⟨digits, x, m, hdigits, rfl, hv, hvalue⟩ := h
  refine ⟨⟨negative, whole, digits, x, hwhole, hdigits⟩, m, rfl, ?_, hv, ?_⟩
  · simp [Numeral.unsigned]
  · rw [Numeral.value?, digitsFrom_append]
    exact hvalue

theorem number_sound (h : number negative bytes = .ok (v, rest)) :
    ∃ (x : Numeral) (m : Number), x.negative = negative ∧ bytes = x.unsigned ++ rest ∧ v = .num m ∧
      x.value? = some m := by
  unfold number at h
  split at h
  · cases h
  · next b bytes =>
    split at h
    · next hzero =>
      obtain rfl := beq_iff_eq.mp hzero
      have hwhole : IsWhole [0x30] := .inl rfl
      split at h
      · exact exists_numeral_of_continues hwhole (fraction_sound h)
      · split at h
        · cases h
        · exact exists_numeral_of_continues hwhole (fraction_sound h)
    · next hzero =>
      split at h
      · next hb =>
        have hhead : ((b :: bytes).takeWhile isDigit).head? ≠ some 0x30 := by
          simpa [hb] using hzero
        have hread := exists_numeral_of_continues (.inr ⟨isDigits_takeWhile hb bytes, hhead⟩)
          (fraction_sound h)
        rwa [List.takeWhile_append_dropWhile] at hread
      · cases h

/-! ## Reading strings -/

theorem stringOctets_close (acc rest : List UInt8) :
    stringOctets acc (0x22 :: rest) = .ok (acc.reverse, rest) := by
  rw [stringOctets.eq_def]
  rfl

theorem Piece.stringOctets {w m : List UInt8} (h : Piece w m) (acc rest : List UInt8) :
    stringOctets acc (w ++ rest) = stringOctets (m.reverse ++ acc) rest := by
  cases h with
  | plain hcontrol hquote hslash =>
    rw [List.singleton_append, stringOctets.eq_def]
    simp [hquote, hslash, hcontrol]
  | @short e c h =>
    have he : e ≠ 0x75 := by
      rintro rfl
      cases h
    rw [List.cons_append, stringOctets.eq_def]
    simp [he, h]
  | @code a b c d n h hn =>
    have hlone : ¬ (0xDC00 ≤ n ∧ n ≤ 0xDFFF) := by omega
    have hchar : n < 0xD800 ∨ 0xDBFF < n := by omega
    rw [List.cons_append, stringOctets.eq_def]
    simp [h, hlone, hchar, pushChar]
  | @pair a b c d a' b' c' d' n k h hn h' hk =>
    have hlone : ¬ (0xDC00 ≤ n ∧ n ≤ 0xDFFF) := by omega
    have hchar : ¬ (n < 0xD800 ∨ 0xDBFF < n) := by omega
    have hhalf : ¬ (k < 0xDC00 ∨ 0xDFFF < k) := by omega
    rw [List.cons_append, stringOctets.eq_def]
    simp [h, h', hlone, hchar, hhalf, pushChar]

theorem Quoted.stringOctets {w m : List UInt8} (h : Quoted w m) (acc rest : List UInt8) :
    stringOctets acc (w ++ rest) = .ok (acc.reverse ++ m, rest) := by
  induction h generalizing acc with
  | close => rw [List.append_nil]; exact stringOctets_close acc rest
  | piece h hrest ih =>
    rw [List.append_assoc, h.stringOctets, ih]
    simp

/-- Inside a string the reader takes a piece and goes on behind it. -/
def TakesPiece (acc bytes octets rest : List UInt8) : Prop :=
  ∃ w m behind, Piece w m ∧ w ≠ [] ∧ bytes = w ++ behind ∧
    stringOctets (m.reverse ++ acc) behind = .ok (octets, rest)

section Pieces

variable {acc octets : List UInt8}

theorem slash_beq_quote : ((0x5C : UInt8) == 0x22) = false := rfl

theorem takesPiece_of_pair {a c d : UInt8} (hn : hexValue4 a b c d = some n)
    (hhigh : 0xD800 ≤ n ∧ n ≤ 0xDBFF)
    (h : stringOctets acc (0x5C :: 0x75 :: a :: b :: c :: d :: bytes) = .ok (octets, rest)) :
    TakesPiece acc (0x5C :: 0x75 :: a :: b :: c :: d :: bytes) octets rest := by
  have hlone : ¬ (0xDC00 ≤ n ∧ n ≤ 0xDFFF) := by omega
  have hchar : ¬ (n < 0xD800 ∨ 0xDBFF < n) := by omega
  rw [stringOctets.eq_def] at h
  simp only [slash_beq_quote, Bool.false_eq_true, beq_self_eq_true, if_true, hn, Bool.and_eq_true,
    Bool.or_eq_true, decide_eq_true_eq, hlone, hchar, if_false] at h
  -- What follows must be the code of the other half.
  split at h
  · cases h
  · split at h
    · next hslash =>
      obtain rfl := beq_iff_eq.mp hslash
      split at h
      · cases h
      · split at h
        · next hu =>
          obtain rfl := beq_iff_eq.mp hu
          split at h
          · split at h
            · cases h
            · next k hk =>
              split at h
              · cases h
              · next hhalf => exact ⟨_, _, _, .pair hn hhigh hk (by omega), by simp, rfl, h⟩
          · cases h
        · cases h
    · cases h

theorem takesPiece_of_code (h : stringOctets acc (0x5C :: 0x75 :: bytes) = .ok (octets, rest)) :
    TakesPiece acc (0x5C :: 0x75 :: bytes) octets rest := by
  rcases bytes with - | ⟨a, - | ⟨b, - | ⟨c, - | ⟨d, bytes⟩⟩⟩⟩
  · cases h
  · cases h
  · cases h
  · cases h
  cases hn : hexValue4 a b c d with
  | none =>
    rw [stringOctets.eq_def] at h
    simp [hn, stopBehind] at h
  | some n =>
    by_cases hhigh : 0xD800 ≤ n ∧ n ≤ 0xDBFF
    · exact takesPiece_of_pair hn hhigh h
    · rw [stringOctets.eq_def] at h
      simp only [slash_beq_quote, Bool.false_eq_true, beq_self_eq_true, if_true, if_false, hn,
        Bool.and_eq_true, Bool.or_eq_true, decide_eq_true_eq] at h
      split_ifs at h with hlone hchar
      · cases h
      · exact ⟨_, _, _, .code hn (by omega), by simp, rfl, h⟩
      · omega

theorem takesPiece_of_escape (h : stringOctets acc (0x5C :: bytes) = .ok (octets, rest)) :
    TakesPiece acc (0x5C :: bytes) octets rest := by
  cases bytes with
  | nil => cases h
  | cons e bytes =>
    by_cases hu : e = 0x75
    · subst hu
      exact takesPiece_of_code h
    · rw [stringOctets.eq_def] at h
      simp only [slash_beq_quote, Bool.false_eq_true, beq_self_eq_true, if_true,
        beq_eq_false_iff_ne.mpr hu, if_false] at h
      split at h
      · next hshort => exact ⟨_, _, _, .short hshort, by simp, rfl, h⟩
      · cases h

/-- What the reader does inside a string: it ends at the closing quote, or it takes a piece and goes
on. -/
theorem stringOctets_cases (h : stringOctets acc bytes = .ok (octets, rest)) :
    (bytes = 0x22 :: rest ∧ octets = acc.reverse) ∨ TakesPiece acc bytes octets rest := by
  cases bytes with
  | nil => cases h
  | cons b bytes =>
    by_cases hslash : b = 0x5C
    · subst hslash
      exact .inr (takesPiece_of_escape h)
    · rw [stringOctets.eq_def] at h
      simp only [beq_iff_eq, hslash, if_false] at h
      split_ifs at h with hquote hcontrol
      · obtain ⟨rfl, rfl⟩ := Prod.mk.inj (Except.ok.inj h)
        exact .inl ⟨by rw [hquote], rfl⟩
      · cases h
      · exact .inr ⟨[b], [b], bytes, .plain hcontrol hquote hslash, by simp, rfl, h⟩

end Pieces

theorem stringOctets_sound {acc octets : List UInt8}
    (h : stringOctets acc bytes = .ok (octets, rest)) :
    ∃ w m, Quoted w m ∧ bytes = w ++ rest ∧ octets = acc.reverse ++ m := by
  induction hk : bytes.length using Nat.strongRecOn generalizing acc bytes with
  | ind k ih =>
    rcases stringOctets_cases h with ⟨rfl, rfl⟩ | ⟨w, m, behind, hpiece, hsome, rfl, hrest⟩
    · exact ⟨_, _, .close, rfl, by simp⟩
    · have hpos := List.length_pos_of_ne_nil hsome
      have hless : behind.length < k := by
        rw [← hk, List.length_append]
        omega
      obtain ⟨ws, ms, hquoted, rfl, rfl⟩ := ih _ hless hrest rfl
      exact ⟨_, _, .piece hpiece hquoted, by simp, by simp⟩

/-- A string is read if and only if it is written as pieces that stand for its octets. -/
theorem string_eq_ok_iff {s : String} :
    string bytes = .ok (s, rest) ↔
      ∃ quoted, Quoted quoted (Utf8.encode s.toList) ∧ bytes = quoted ++ rest := by
  constructor
  · intro h
    unfold string at h
    split at h
    · cases h
    · next octets behind hread =>
      split at h
      · next cs hdecode =>
        obtain ⟨rfl, rfl⟩ := Prod.mk.inj (Except.ok.inj h)
        obtain ⟨w, m, hquoted, hbytes, hoctets⟩ := stringOctets_sound hread
        refine ⟨w, ?_, hbytes⟩
        rw [String.toList_ofList, Utf8.decode_eq_ok_iff.mp hdecode, hoctets]
        exact hquoted
      · cases h
  · rintro ⟨quoted, hquoted, rfl⟩
    rw [string, hquoted.stringOctets]
    simp [Utf8.decode_encode]

end LanguageClient.Json
