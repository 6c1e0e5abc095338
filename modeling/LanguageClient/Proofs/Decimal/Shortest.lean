import Mathlib.Data.List.TakeWhile
import LanguageClient.Decimal.Shortest
import LanguageClient.Proofs.Decimal.Rounding

/-!
# What is written reads back

`near_of_holds` says that the interval of a number holds only numbers that round to it, so whatever
the search comes up with inside the interval reads back. It does come up with something: the last grid
that it tries is finer than the distance between the number and the lower end (`ten_zpow_le`), so the
point of that grid just below the number is inside.

A layout then spreads the digits that were found over a whole part, a fraction and an exponent.
`Spells` is the form of all such texts, with what they are worth; `write_spells` says that under every
layout a finite number is written as a text that is worth a decimal which the reader takes back to the
number.
-/

namespace LanguageClient.Decimal

/-! ## Comparing exactly

The search compares integers with both sides multiplied out. These lemmas say which rational numbers
are compared. -/

theorem zpow_split {b : ℚ} (hb : b ≠ 0) (p : Int) : b ^ p * b ^ (-p).toNat = b ^ p.toNat := by
  rw [← zpow_natCast, ← zpow_natCast, ← zpow_add₀ hb]
  congr 1
  omega

theorem compareScaled_eq (a : Nat) (p : Int) (c : Nat) (g : Int) :
    compareScaled a p c g = compare ((a : ℚ) * 2 ^ p) (c * 10 ^ g) := by
  -- Both sides are multiplied by the powers that stand below the line.
  have hpos : (0 : ℚ) < 2 ^ (-p).toNat * 10 ^ (-g).toNat := by positivity
  have htwo := zpow_split (by norm_num : (2 : ℚ) ≠ 0) p
  have hten := zpow_split (by norm_num : (10 : ℚ) ≠ 0) g
  have hleft : ((a * Nat.pow 2 p.toNat * Nat.pow 10 (-g).toNat : Nat) : ℚ) =
      a * 2 ^ p * (2 ^ (-p).toNat * 10 ^ (-g).toNat) := by
    push_cast [Nat.pow_eq]
    rw [← htwo]
    ring
  have hright : ((c * Nat.pow 10 g.toNat * Nat.pow 2 (-p).toNat : Nat) : ℚ) =
      c * 10 ^ g * (2 ^ (-p).toNat * 10 ^ (-g).toNat) := by
    push_cast [Nat.pow_eq]
    rw [← hten]
    ring
  rw [compareScaled]
  rcases lt_trichotomy ((a : ℚ) * 2 ^ p) (c * 10 ^ g) with h | h | h
  · rw [compare_lt_iff_lt.mpr h, compare_lt_iff_lt]
    have hcast := mul_lt_mul_of_pos_right h hpos
    rw [← hleft, ← hright] at hcast
    exact_mod_cast hcast
  · rw [compare_eq_iff_eq.mpr h, compare_eq_iff_eq]
    have hcast := congrArg (· * ((2 : ℚ) ^ (-p).toNat * 10 ^ (-g).toNat)) h
    simp only [← hleft, ← hright] at hcast
    exact_mod_cast hcast
  · rw [compare_gt_iff_gt.mpr h, compare_gt_iff_gt]
    have hcast := mul_lt_mul_of_pos_right h hpos
    rw [← hleft, ← hright] at hcast
    exact_mod_cast hcast

/-! ## The interval -/

/-- `v` lies in the interval, at an end only if that is part of it. -/
structure Interval.Holds (r : Interval) (v : ℚ) : Prop where
  low : r.low * 2 ^ r.unit ≤ v
  high : v ≤ r.high * 2 ^ r.unit
  ends : v = r.low * 2 ^ r.unit ∨ v = r.high * 2 ^ r.unit → r.closed = true

namespace Interval

variable {r : Interval} {c : Nat} {g : Int}

theorem contains_iff (hends : r.low ≤ r.high) :
    r.contains c g = true ↔ r.Holds (c * 10 ^ g) := by
  have hunit : (0 : ℚ) < 2 ^ r.unit := by positivity
  have hle : (r.low : ℚ) * 2 ^ r.unit ≤ r.high * 2 ^ r.unit := by
    gcongr
  rw [contains, compareScaled_eq, compareScaled_eq]
  generalize (c : ℚ) * 10 ^ g = v
  rcases lt_trichotomy ((r.low : ℚ) * 2 ^ r.unit) v with hlow | hlow | hlow
  · rw [compare_lt_iff_lt.mpr hlow]
    rcases lt_trichotomy ((r.high : ℚ) * 2 ^ r.unit) v with hhigh | hhigh | hhigh
    · rw [compare_lt_iff_lt.mpr hhigh]
      exact iff_of_false Bool.false_ne_true fun h => absurd h.high hhigh.not_ge
    · rw [compare_eq_iff_eq.mpr hhigh]
      exact ⟨fun h => ⟨hlow.le, hhigh.ge, fun _ => h⟩, fun h => h.ends (.inr hhigh.symm)⟩
    · rw [compare_gt_iff_gt.mpr hhigh]
      refine iff_of_true rfl ⟨hlow.le, hhigh.le, fun hends => ?_⟩
      rcases hends with hend | hend
      · exact absurd hend hlow.ne'
      · exact absurd hend hhigh.ne
  · rw [compare_eq_iff_eq.mpr hlow]
    exact ⟨fun h => ⟨hlow.le, hlow ▸ hle, fun _ => h⟩, fun h => h.ends (.inl hlow.symm)⟩
  · rw [compare_gt_iff_gt.mpr hlow, compare_gt_iff_gt.mpr (hlow.trans_le hle)]
    exact iff_of_false Bool.false_ne_true fun h => absurd h.low hlow.not_ge

theorem floorAt_bounds (r : Interval) (g : Int) :
    (r.floorAt g : ℚ) * 10 ^ g ≤ r.mid * 2 ^ r.unit ∧
      (r.mid : ℚ) * 2 ^ r.unit < (r.floorAt g + 1) * 10 ^ g := by
  have htwo := zpow_split (by norm_num : (2 : ℚ) ≠ 0) r.unit
  have hten := zpow_split (by norm_num : (10 : ℚ) ≠ 0) g
  have hpos : (0 : ℚ) < 2 ^ (-r.unit).toNat * 10 ^ (-g).toNat := by positivity
  have hden : 0 < 10 ^ g.toNat * 2 ^ (-r.unit).toNat := by positivity
  have hlow : r.floorAt g * (10 ^ g.toNat * 2 ^ (-r.unit).toNat) ≤
      r.mid * 2 ^ r.unit.toNat * 10 ^ (-g).toNat := Nat.div_mul_le_self ..
  have hhigh : r.mid * 2 ^ r.unit.toNat * 10 ^ (-g).toNat <
      10 ^ g.toNat * 2 ^ (-r.unit).toNat * (r.floorAt g + 1) := Nat.lt_mul_div_succ _ hden
  have hlow' : (r.floorAt g : ℚ) * (10 ^ g.toNat * 2 ^ (-r.unit).toNat) ≤
      r.mid * 2 ^ r.unit.toNat * 10 ^ (-g).toNat := by exact_mod_cast hlow
  have hhigh' : (r.mid : ℚ) * 2 ^ r.unit.toNat * 10 ^ (-g).toNat <
      10 ^ g.toNat * 2 ^ (-r.unit).toNat * (r.floorAt g + 1) := by exact_mod_cast hhigh
  rw [← htwo, ← hten] at hlow' hhigh'
  constructor
  · refine le_of_mul_le_mul_right ?_ hpos
    linarith
  · refine lt_of_mul_lt_mul_right ?_ hpos.le
    linarith

/-! ## The search -/

theorem contains_of_hitAt (h : r.hitAt g = some c) : r.contains c g = true := by
  unfold hitAt at h
  dsimp only at h
  split at h
  · next hfloor hnext =>
    obtain rfl := Option.some.inj h
    split <;> assumption
  · next hfloor _ => exact Option.some.inj h ▸ hfloor
  · next _ hnext => exact Option.some.inj h ▸ hnext
  · cases h

theorem hitAt_of_floor (h : r.contains (r.floorAt g) g = true) :
    ∃ c, r.hitAt g = some c ∧ r.floorAt g ≤ c := by
  unfold hitAt
  dsimp only
  rw [h]
  cases r.contains (r.floorAt g + 1) g with
  | false => exact ⟨_, rfl, le_rfl⟩
  | true =>
    refine ⟨_, rfl, ?_⟩
    split <;> omega

theorem search_hits {tries k : Nat} (hk : k < tries)
    (hhit : ∃ c, r.hitAt (g - k) = some c ∧ c ≠ 0) :
    (r.search tries g).1 ≠ 0 ∧
      r.contains (r.search tries g).1 (r.search tries g).2 = true := by
  induction tries generalizing g k with
  | zero => omega
  | succ tries ih =>
    -- If this grid has no hit then it is not the one that has.
    have hlater : (∀ c, r.hitAt g = some c → c = 0) →
        (r.search tries (g - 1)).1 ≠ 0 ∧
          r.contains (r.search tries (g - 1)).1 (r.search tries (g - 1)).2 = true := by
      intro hnone
      cases k with
      | zero =>
        obtain ⟨c, hc, hne⟩ := hhit
        exact absurd (hnone c (by simpa using hc)) hne
      | succ k =>
        refine ih (Nat.lt_of_succ_lt_succ hk) ?_
        rwa [show g - 1 - k = g - (k + 1 : Nat) by omega]
    rw [search]
    split
    · next c hc =>
      split
      · next hzero => exact hlater fun d hd => Option.some.inj (hd.symm.trans hc) ▸ hzero
      · next hne => exact ⟨hne, contains_of_hitAt hc⟩
    · next hnone => exact hlater fun d hd => by simp [hnone] at hd

/-- On a grid no coarser than the unit the point below the number is inside. -/
theorem hitAt_of_fine (hlow : r.low < r.mid) (hhigh : r.mid < r.high)
    (hfine : (10 : ℚ) ^ g ≤ 2 ^ r.unit) : ∃ c, r.hitAt g = some c ∧ c ≠ 0 := by
  obtain ⟨hbelow, habove⟩ := r.floorAt_bounds g
  have hunit : (0 : ℚ) < 2 ^ r.unit := by positivity
  have hlow' : (r.low : ℚ) + 1 ≤ r.mid := by exact_mod_cast hlow
  have hhigh' : (r.mid : ℚ) < r.high := by exact_mod_cast hhigh
  have hleft : (r.low : ℚ) * 2 ^ r.unit < r.floorAt g * 10 ^ g := by nlinarith
  have hright : (r.floorAt g : ℚ) * 10 ^ g < r.high * 2 ^ r.unit :=
    hbelow.trans_lt (mul_lt_mul_of_pos_right hhigh' hunit)
  have hholds : r.Holds (r.floorAt g * 10 ^ g) := by
    refine ⟨hleft.le, hright.le, fun hend => ?_⟩
    rcases hend with hend | hend
    · exact absurd hend hleft.ne'
    · exact absurd hend hright.ne
  obtain ⟨c, hc, hle⟩ := hitAt_of_floor ((contains_iff (by omega)).mpr hholds)
  refine ⟨c, hc, fun hzero => ?_⟩
  -- Zero is below the lower end.
  have hfloor : r.floorAt g = 0 := by omega
  rw [hfloor] at hleft
  have : (0 : ℚ) ≤ r.low * 2 ^ r.unit := by positivity
  simp only [Nat.cast_zero, zero_mul] at hleft
  linarith

end Interval

theorem ten_zpow_le_of {k u : Int} {p q : Nat} (hq : q ≠ 0)
    (hpow : ((10 : ℚ) ^ q) ^ k ≤ (2 ^ p) ^ k) (h : p * k ≤ q * u) : (10 : ℚ) ^ k ≤ 2 ^ u := by
  refine (pow_le_pow_iff_left₀ (by positivity) (by positivity) hq).mp ?_
  calc ((10 : ℚ) ^ k) ^ q = (10 ^ q) ^ k := by
        rw [← zpow_natCast, ← zpow_natCast, ← zpow_mul, ← zpow_mul, mul_comm]
    _ ≤ (2 ^ p) ^ k := hpow
    _ = 2 ^ (p * k) := by rw [← zpow_natCast, ← zpow_mul]
    _ ≤ 2 ^ (q * u) := zpow_le_zpow_right₀ (by norm_num) h
    _ = (2 ^ u) ^ q := by rw [← zpow_natCast, ← zpow_mul, mul_comm]

/-- `30103 / 100000` is close enough to the logarithm of two, for exponents of this size. A power of ten
is compared with the power of two just above it, or just below it if the exponent is negative. -/
theorem ten_zpow_le {k u : Int} (hk : 100000 * k ≤ 30103 * u - 70000) (hlow : -1100 ≤ u)
    (hhigh : u ≤ 1100) : (10 : ℚ) ^ k ≤ 2 ^ u := by
  rcases le_total 0 k with hsign | hsign
  · refine ten_zpow_le_of (p := 196) (q := 59) (by decide) ?_ (by omega)
    exact zpow_le_zpow_left₀ hsign (by positivity) (by norm_num)
  · refine ten_zpow_le_of (p := 93) (q := 28) (by decide) ?_ (by omega)
    obtain ⟨j, rfl⟩ := Int.exists_eq_neg_ofNat hsign
    rw [zpow_neg, zpow_neg, zpow_natCast, zpow_natCast]
    gcongr
    norm_num

namespace Binary64

variable {x : Binary64}

theorem interval_ends (hm : x.significand ≠ 0) :
    x.interval.low < x.interval.mid ∧ x.interval.mid < x.interval.high := by
  unfold interval
  dsimp only
  split <;> omega

theorem interval_low (hm : x.significand ≠ 0) :
    (x.interval.low : ℚ) = 4 * x.significand - 1 ∨
      (x.interval.low : ℚ) = 4 * x.significand - 2 ∧
        ¬ (x.fractionField = 0 ∧ 1 < x.exponentField) := by
  by_cases hedge : x.fractionField = 0 ∧ 1 < x.exponentField
  · left
    rw [interval, if_pos (by simpa using hedge), Nat.cast_sub (by omega)]
    push_cast
    rfl
  · right
    rw [interval, if_neg (by simpa using hedge), Nat.cast_sub (by omega)]
    push_cast
    exact ⟨rfl, hedge⟩

theorem near_of_holds {v : ℚ} (hm : x.significand ≠ 0) (h : x.interval.Holds v) : Near x v := by
  have hscale : (0 : ℚ) < 2 ^ x.scale := by positivity
  have hunit : (2 : ℚ) ^ x.interval.unit = 2 ^ x.scale / 4 := by
    rw [interval, zpow_sub₀ (by norm_num)]
    norm_num
  have hhigh_eq : (x.interval.high : ℚ) = 4 * x.significand + 2 := by
    rw [interval]
    push_cast
    rfl
  obtain ⟨hlow, hhigh, hends⟩ := h
  rw [hunit, ← mul_div_assoc] at hlow hhigh hends
  rw [hhigh_eq] at hhigh hends
  obtain ⟨w, rfl⟩ : ∃ w, v = w * 2 ^ x.scale := ⟨v / 2 ^ x.scale, by field_simp⟩
  have hquotient : w * 2 ^ x.scale / 2 ^ x.scale = w := by field_simp
  -- The ends, in units of the last digit.
  have hhigh' : w ≤ x.significand + 1 / 2 := le_of_mul_le_mul_right (by linarith) hscale
  have hlow' : x.interval.low ≤ 4 * w := le_of_mul_le_mul_right (by linarith) hscale
  have heven : 4 * w = x.interval.low ∨ w = x.significand + 1 / 2 → x.significand % 2 = 0 := by
    intro hend
    refine beq_iff_eq.mp (hends ?_)
    rcases hend with hend | hend
    · left
      rw [← hend]
      ring
    · right
      rw [hend]
      ring
  rcases interval_low hm with hcast | ⟨hcast, hinner⟩
  · rw [hcast] at hlow'
    refine ⟨⟨?_, ?_, fun hend => heven (.inr ?_)⟩, fun _ _ => ?_⟩ <;> rw [hquotient] at *
    · linarith
    · exact hhigh'
    · rcases hend with hend | hend
      · linarith
      · exact hend
    · linarith
  · rw [hcast] at hlow' heven
    refine ⟨⟨?_, ?_, fun hend => heven ?_⟩, fun hf he => absurd ⟨hf, he⟩ hinner⟩ <;>
      rw [hquotient] at *
    · linarith
    · exact hhigh'
    · rcases hend with hend | hend
      · left
        linarith
      · exact .inr hend

theorem near_search (hfinite : x.isFinite = true) (hm : x.significand ≠ 0) :
    let top : Int := ((Nat.log2 x.interval.mid : Int) + x.interval.unit) * 30103 / 100000 + 1
    let found := x.interval.search 19 top
    found.1 ≠ 0 ∧ Near x (found.1 * 10 ^ found.2) := by
  intro top found
  obtain ⟨hlow, hhigh⟩ := interval_ends hm
  obtain ⟨hsmall, hlarge⟩ := scale_bounds hfinite
  have hshort := (significand_bounds x).1
  have hlog : Nat.log2 x.interval.mid < 55 := by
    refine (Nat.log2_lt (by omega)).mpr ?_
    change 4 * x.significand < 2 ^ 55
    omega
  have hunit : x.interval.unit = x.scale - 2 := rfl
  have hfine : (10 : ℚ) ^ (top - (18 : Nat)) ≤ 2 ^ x.interval.unit :=
    ten_zpow_le (by omega) (by omega) (by omega)
  obtain ⟨hne, hin⟩ := Interval.search_hits (by decide : 18 < 19)
    (Interval.hitAt_of_fine hlow hhigh hfine)
  exact ⟨hne, near_of_holds hm ((Interval.contains_iff (by omega)).mp hin)⟩

end Binary64

/-! ## Digits -/

def worth (ds : List Char) : Nat := Nat.ofDigitChars 10 ds 0

theorem worth_toDigits (n : Nat) : worth (Nat.toDigits 10 n) = n := Nat.ofDigitChars_ten_toDigits

theorem worth_zeros_append (k : Nat) (ds : List Char) :
    worth (List.replicate k '0' ++ ds) = worth ds := by
  simp [worth, Nat.ofDigitChars_append]

theorem worth_append_zeros (ds : List Char) (k : Nat) :
    worth (ds ++ List.replicate k '0') = worth ds * 10 ^ k := by
  simp [worth, Nat.ofDigitChars_append, Nat.mul_comm]

/-- A run of digits that begins with another one than zero. -/
structure Led (ds : List Char) : Prop where
  digits : ∀ c ∈ ds, c.isDigit = true
  lead : ∃ c cs, ds = c :: cs ∧ c ≠ '0'

theorem led_toDigits {n : Nat} (hn : n ≠ 0) : Led (Nat.toDigits 10 n) := by
  refine ⟨fun c hc => Nat.isDigit_of_mem_toDigits (by decide) (by decide) hc, ?_⟩
  induction n using Nat.strongRecOn with
  | ind n ih =>
    by_cases hsmall : n < 10
    · rw [Nat.toDigits_of_lt_base hsmall]
      refine ⟨_, [], rfl, fun hzero => hn ?_⟩
      have hcode := Nat.toNat_digitChar_of_lt_ten hsmall
      rw [hzero, show '0'.toNat = 48 from rfl] at hcode
      omega
    · obtain ⟨c, cs, hfront, hlead⟩ := ih (n / 10) (by omega) (by omega)
      rw [Nat.toDigits_of_base_le (by decide) (by omega), hfront]
      exact ⟨c, _, rfl, hlead⟩

theorem dropTrailingZeros_append (cs : List Char) :
    ∃ k, dropTrailingZeros cs ++ List.replicate k '0' = cs := by
  refine ⟨(cs.reverse.takeWhile (· == '0')).length, ?_⟩
  have hzeros : List.replicate (cs.reverse.takeWhile (· == '0')).length '0' =
      (cs.reverse.takeWhile (· == '0')).reverse := by
    refine (List.eq_replicate_iff.mpr ⟨List.length_reverse, fun c hc => ?_⟩).symm
    simpa using List.mem_takeWhile_imp (List.mem_reverse.mp hc)
  rw [hzeros, dropTrailingZeros, ← List.reverse_append, List.takeWhile_append_dropWhile,
    List.reverse_reverse]

theorem Led.dropTrailingZeros {cs : List Char} (h : Led cs) : Led (dropTrailingZeros cs) := by
  obtain ⟨k, hk⟩ := dropTrailingZeros_append cs
  obtain ⟨c, rest, hcons, hlead⟩ := h.lead
  refine ⟨fun d hd => h.digits d (hk ▸ List.mem_append_left _ hd), ?_⟩
  cases hfront : Decimal.dropTrailingZeros cs with
  | nil =>
    rw [hfront, List.nil_append, hcons] at hk
    have hmem : c ∈ List.replicate k '0' := hk ▸ List.mem_cons_self
    exact absurd (List.eq_of_mem_replicate hmem) hlead
  | cons d ds =>
    rw [hfront, hcons] at hk
    exact ⟨d, ds, rfl, (List.cons.inj hk).1 ▸ hlead⟩

def Digits.value (d : Digits) : ℚ := worth d.digits * 10 ^ (d.point - d.digits.length)

theorem value_ofNat (c : Nat) (g : Int) : (Digits.ofNat c g).value = c * 10 ^ g := by
  obtain ⟨k, hk⟩ := dropTrailingZeros_append (Nat.toDigits 10 c)
  have hworth : c = worth (dropTrailingZeros (Nat.toDigits 10 c)) * 10 ^ k := by
    rw [← worth_append_zeros, hk, worth_toDigits]
  have hlength : (Nat.toDigits 10 c).length =
      (dropTrailingZeros (Nat.toDigits 10 c)).length + k := by
    rw [← List.length_replicate (n := k) (a := '0'), ← List.length_append, hk]
  have hexponent : (Digits.ofNat c g).point - (Digits.ofNat c g).digits.length = k + g := by
    simp only [Digits.ofNat, hlength]
    push_cast
    ring
  rw [Digits.value, hexponent, zpow_add₀ (by norm_num), zpow_natCast, ← mul_assoc]
  congr 1
  exact_mod_cast hworth.symm

/-! ## Spellings -/

/-- The digits before the point: no zero in front, unless it is the only digit. -/
def Whole (ds : List Char) : Prop := ds = ['0'] ∨ Led ds

/-- A fraction with its point, which is left out together with an empty fraction. -/
def pointed : List Char → List Char
  | [] => []
  | c :: cs => '.' :: c :: cs

/-- The characters spell `n · 10 ^ e`, with a point or with an exponent. -/
inductive Spells : List Char → Nat → Int → Prop where
  | positional {whole fraction : List Char} (hwhole : Whole whole) (hsome : fraction ≠ [])
      (hfraction : ∀ c ∈ fraction, c.isDigit = true) :
      Spells (whole ++ pointed fraction) (worth (whole ++ fraction)) (-(fraction.length : Int))
  | scientific {whole fraction sign power : List Char} (hwhole : Whole whole)
      (hfraction : ∀ c ∈ fraction, c.isDigit = true) (hsign : sign ∈ [[], ['+'], ['-']])
      (hsome : power ≠ []) (hpower : ∀ c ∈ power, c.isDigit = true) :
      Spells (whole ++ (pointed fraction ++ 'e' :: (sign ++ power))) (worth (whole ++ fraction))
        ((if sign = ['-'] then -(worth power : Int) else worth power) - fraction.length)

theorem pointed_of_ne {cs : List Char} (h : cs ≠ []) : pointed cs = '.' :: cs := by
  cases cs with
  | nil => exact absurd rfl h
  | cons c cs => rfl

theorem isDigit_of_mem_zeros {k : Nat} {c : Char} (h : c ∈ List.replicate k '0') :
    c.isDigit = true := by
  rw [List.eq_of_mem_replicate h]
  rfl

theorem Led.ne_nil {ds : List Char} (h : Led ds) : ds ≠ [] := by
  obtain ⟨c, cs, hcons, -⟩ := h.lead
  simp [hcons]

theorem Led.take {ds : List Char} (h : Led ds) {k : Nat} (hk : 0 < k) :
    Led (ds.take k ++ List.replicate (k - ds.length) '0') := by
  refine ⟨fun c hc => ?_, ?_⟩
  · rcases List.mem_append.mp hc with hmem | hmem
    · exact h.digits c (List.mem_of_mem_take hmem)
    · exact isDigit_of_mem_zeros hmem
  · obtain ⟨c, cs, rfl, hlead⟩ := h.lead
    obtain ⟨k, rfl⟩ := Nat.exists_eq_add_of_lt hk
    rw [Nat.zero_add, List.take_succ_cons]
    exact ⟨c, _, rfl, hlead⟩

theorem positional_spells {d : Digits} (h : Led d.digits) :
    ∃ n e, Spells d.positional n e ∧ (n : ℚ) * 10 ^ e = d.value := by
  have hdigits : ∀ k, ∀ c ∈ List.replicate k '0' ++ d.digits, c.isDigit = true := by
    intro k c hc
    rcases List.mem_append.mp hc with hmem | hmem
    · exact isDigit_of_mem_zeros hmem
    · exact h.digits c hmem
  rw [Digits.positional, Digits.value]
  split
  · next hpoint =>
    have hsome : List.replicate (-d.point).toNat '0' ++ d.digits ≠ [] := by simp [h.ne_nil]
    have hspells := Spells.positional (.inl rfl : Whole ['0']) hsome (hdigits _)
    rw [pointed_of_ne hsome] at hspells
    refine ⟨_, _, hspells, ?_⟩
    have hworth : worth (['0'] ++ (List.replicate (-d.point).toNat '0' ++ d.digits)) =
        worth d.digits := by
      rw [show ['0'] = List.replicate 1 '0' from rfl, worth_zeros_append, worth_zeros_append]
    rw [hworth, List.length_append, List.length_replicate]
    congr 2
    omega
  · next hpoint =>
    have hpos : 0 < d.point.toNat := by omega
    have hwhole : Whole (d.digits.take d.point.toNat ++
      List.replicate (d.point.toNat - d.digits.length) '0') := .inr (h.take hpos)
    dsimp only
    split
    · next hrest =>
      have hlength := List.drop_eq_nil_iff.mp hrest
      have hspells := Spells.positional hwhole (List.cons_ne_nil '0' []) (by simp)
      refine ⟨_, _, hspells, ?_⟩
      have hworth : worth (d.digits.take d.point.toNat ++
          List.replicate (d.point.toNat - d.digits.length) '0' ++ ['0']) =
          worth d.digits * 10 ^ (d.point.toNat - d.digits.length + 1) := by
        rw [List.take_of_length_le hlength, List.append_assoc, ← List.replicate_succ',
          worth_append_zeros]
      have hexponent : d.point - d.digits.length =
          (d.point.toNat - d.digits.length + 1 : Nat) + -([ '0' ].length : Int) := by
        simp only [List.length_singleton]
        omega
      rw [hworth, hexponent, zpow_add₀ (by norm_num), zpow_natCast]
      push_cast
      ring
    · next hrest =>
      have hlength : d.point.toNat < d.digits.length := by
        simpa [List.drop_eq_nil_iff] using hrest
      have hspells := Spells.positional hwhole hrest fun c hc => h.digits c (List.mem_of_mem_drop hc)
      rw [pointed_of_ne hrest] at hspells
      refine ⟨_, _, hspells, ?_⟩
      have hnone : List.replicate (d.point.toNat - d.digits.length) '0' = [] := by
        simp [Nat.sub_eq_zero_of_le hlength.le]
      rw [hnone, List.append_nil, List.take_append_drop, List.length_drop]
      congr 2
      omega

theorem scientific_spells {d : Digits} (h : Led d.digits) (signed : Bool) :
    ∃ n e, Spells (d.scientific signed) n e ∧ (n : ℚ) * 10 ^ e = d.value := by
  obtain ⟨c, cs, hcons, hlead⟩ := h.lead
  have hdigits := h.digits
  rw [hcons] at hdigits
  obtain ⟨hc, hcs⟩ := List.forall_mem_cons.mp hdigits
  have hwhole : Whole [c] := .inr ⟨by simpa using hc, c, [], rfl, hlead⟩
  -- The sign says which way the exponent goes.
  generalize hsign_eq : (if d.point - 1 < 0 then ['-'] else if signed then ['+'] else []) = sign
  have hsign : sign ∈ [[], ['+'], ['-']] := by
    subst hsign_eq
    split
    · simp
    · split <;> simp
  have hexponent : (if sign = ['-'] then -((d.point - 1).natAbs : Int) else (d.point - 1).natAbs) =
      d.point - 1 := by
    subst hsign_eq
    split
    · rw [if_pos rfl]
      omega
    · split
      · rw [if_neg (by decide)]
        omega
      · rw [if_neg (by decide)]
        omega
  have hpower : ∀ c ∈ Nat.toDigits 10 (d.point - 1).natAbs, c.isDigit = true :=
    fun c hc => Nat.isDigit_of_mem_toDigits (by decide) (by decide) hc
  have hspells := Spells.scientific hwhole hcs hsign Nat.toDigits_ne_nil hpower
  have htext : d.scientific signed =
      [c] ++ (pointed cs ++ 'e' :: (sign ++ Nat.toDigits 10 (d.point - 1).natAbs)) := by
    rw [Digits.scientific, hcons, hsign_eq]
    cases cs with
    | nil => rfl
    | cons c' cs' => rfl
  rw [htext]
  refine ⟨_, _, hspells, ?_⟩
  rw [worth_toDigits, hexponent, Digits.value, hcons]
  congr 2
  simp only [List.length_cons]
  push_cast
  ring

theorem Binary64.eq_zero {x : Binary64} (hm : x.significand = 0) :
    x = Binary64.zero x.isNegative := by
  have hfields : x.exponentField = 0 ∧ x.fractionField = 0 := by
    rw [significand] at hm
    split at hm
    · next hexponent => exact ⟨hexponent, hm⟩
    · simp at hm
  have hself := Binary64.ofFields_self x
  rw [hfields.1, hfields.2] at hself
  exact hself.symm

/-- Whatever the layout, a finite number is written as a text from which it is read back. -/
theorem write_spells (l : Layout) {x : Binary64} (hfinite : x.isFinite = true) :
    ∃ cs n e, l.write x = (if x.isNegative then ['-'] else []) ++ cs ∧ Spells cs n e ∧
      Binary64.ofDecimal x.isNegative n e = some x := by
  rw [Layout.write]
  dsimp only
  split
  · next hzero =>
    have hspells := Spells.positional (.inl rfl : Whole ['0']) (List.cons_ne_nil '0' []) (by simp)
    exact ⟨_, _, _, rfl, hspells, congrArg some (Binary64.eq_zero hzero).symm⟩
  · next hm =>
    obtain ⟨hne, hnear⟩ := Binary64.near_search hfinite hm
    have hled : Led x.shortest.digits := (led_toDigits hne).dropTrailingZeros
    -- Any spelling of the digits that were found reads back.
    have hback : ∀ {n : Nat} {e : Int}, (n : ℚ) * 10 ^ e = x.shortest.value →
        Binary64.ofDecimal x.isNegative n e = some x := by
      intro n e hvalue
      refine Binary64.ofDecimal_of_near hfinite hm ?_
      rw [hvalue]
      exact (value_ofNat _ _).symm ▸ hnear
    split
    · obtain ⟨n, e, hspells, hvalue⟩ := positional_spells hled
      exact ⟨_, n, e, rfl, hspells, hback hvalue⟩
    · obtain ⟨n, e, hspells, hvalue⟩ := scientific_spells hled l.signedExponent
      exact ⟨_, n, e, rfl, hspells, hback hvalue⟩

end LanguageClient.Decimal
