import Mathlib.Algebra.Order.Field.Power
import Mathlib.Algebra.Order.Ring.Rat
import Mathlib.Data.Rat.Cast.Order
import Mathlib.Tactic.FieldSimp
import Mathlib.Tactic.Linarith
import Mathlib.Tactic.NormNum
import Mathlib.Tactic.Positivity
import Mathlib.Tactic.Ring
import LanguageClient.Decimal.Binary64

/-!
# Reading finds the nearest number

All of this is about exact quotients, so it is told in rational numbers. `Rounds v m` says that `m`
is the integer nearest to `v`, the even one of two; that is what `roundScaled` computes. `Near x v`
says that `v` is one of the numbers that round to `x`. The interval of these numbers is narrower below
`x` if `x` is a power of two, since its neighbour there is nearer.

`ofQuotient` guesses a scale by the lengths of numerator and denominator and corrects the guess once.
`ofQuotient_of_near` says that it comes out at the number that the quotient is near to; the only case
in which it does so at another scale than that of the number is a quotient just below a power of two.
-/

namespace LanguageClient.Decimal.Binary64

/-! ## Rounding to integers -/

/-- `m` is the integer nearest to `v`, and the even one if there are two. -/
structure Rounds (v : ℚ) (m : Nat) : Prop where
  low : (m : ℚ) - 1 / 2 ≤ v
  high : v ≤ m + 1 / 2
  even : v = m - 1 / 2 ∨ v = m + 1 / 2 → m % 2 = 0

variable {v : ℚ} {m n den num : Nat} {negative : Bool} {y : Binary64}

theorem Rounds.mono {w : ℚ} (hm : Rounds v m) (hn : Rounds w n) (h : v ≤ w) :
    m ≤ n := by
  by_contra hlt
  -- Two integers apart by more than one cannot be nearest to numbers in that order.
  have hcast : (n : ℚ) + 1 ≤ m := by exact_mod_cast (Nat.lt_of_not_le hlt)
  have hlow := hm.low
  have hhigh := hn.high
  have hm_eq : (m : ℚ) = n + 1 := by linarith
  have hm_even := hm.even (.inl (by linarith))
  have hn_even := hn.even (.inr (by linarith))
  have hnat : m = n + 1 := by exact_mod_cast hm_eq
  omega

theorem Rounds.unique (hm : Rounds v m) (hn : Rounds v n) : m = n :=
  Nat.le_antisymm (hm.mono hn le_rfl) (hn.mono hm le_rfl)

theorem rounds_of_lt (hlow : (m : ℚ) - 1 / 2 < v) (hhigh : v < m + 1 / 2) :
    Rounds v m :=
  ⟨hlow.le, hhigh.le, fun h => by rcases h with h | h <;> linarith⟩

theorem rounds_roundDiv (num : Nat) (hden : 0 < den) :
    Rounds ((num : ℚ) / den) (roundDiv num den) := by
  have hpos : (0 : ℚ) < den := by exact_mod_cast hden
  have hv : (num : ℚ) / den = (num / den : Nat) + ((num % den : Nat) : ℚ) / den := by
    have hdiv : (num : ℚ) = den * (num / den : Nat) + (num % den : Nat) := by
      exact_mod_cast (Nat.div_add_mod num den).symm
    rw [div_eq_iff hpos.ne', add_mul, div_mul_cancel₀ _ hpos.ne', mul_comm _ (den : ℚ)]
    exact hdiv
  have hnonneg : (0 : ℚ) ≤ ((num % den : Nat) : ℚ) / den := by positivity
  have hone : ((num % den : Nat) : ℚ) / den < 1 := by
    rw [div_lt_one hpos]
    exact_mod_cast Nat.mod_lt num hden
  rw [hv, roundDiv]
  generalize num / den = q
  generalize num % den = r at hnonneg hone ⊢
  split
  · next hless =>
    have hf : (r : ℚ) / den < 1 / 2 := by
      rw [div_lt_iff₀ hpos]
      have hcast : (2 : ℚ) * r < den := by exact_mod_cast hless
      linarith
    exact rounds_of_lt (by linarith) (by linarith)
  · split
    · next hmore =>
      have hf : 1 / 2 < (r : ℚ) / den := by
        rw [lt_div_iff₀ hpos]
        have hcast : (den : ℚ) < 2 * r := by exact_mod_cast hmore
        linarith
      exact rounds_of_lt (by push_cast; linarith) (by push_cast; linarith)
    · next hless hmore =>
      -- Exactly half way.
      have hf : (r : ℚ) / den = 1 / 2 := by
        rw [div_eq_iff hpos.ne']
        have hcast : (2 : ℚ) * r = den := by exact_mod_cast (by omega : 2 * r = den)
        linarith
      rw [hf]
      split
      · next heven => exact ⟨by linarith, by linarith, fun _ => heven⟩
      · exact ⟨by push_cast; linarith, by push_cast; linarith, fun _ => by omega⟩

theorem rounds_roundScaled (num : Nat) (hden : 0 < den) (q : Int) :
    Rounds ((num : ℚ) / den / 2 ^ q) (roundScaled num den q) := by
  rw [roundScaled]
  split
  · next hq =>
    obtain ⟨k, rfl⟩ := Int.eq_ofNat_of_zero_le hq
    have h := rounds_roundDiv num (Nat.mul_pos hden (Nat.pow_pos (n := k) Nat.two_pos))
    rw [zpow_natCast, div_div]
    simpa [Nat.pow_eq] using h
  · next hq =>
    obtain ⟨k, rfl⟩ : ∃ k : Nat, q = -(k : Int) := ⟨(-q).toNat, by omega⟩
    have h := rounds_roundDiv (num * Nat.pow 2 k) hden
    rw [zpow_neg, zpow_natCast, div_inv_eq_mul, div_mul_eq_mul_div]
    simpa [Nat.pow_eq] using h

/-! ## The fields of a number

A finite number is what its significand and its scale are packed into (`pack_self`), so either view
of it may be used. -/

variable {x : Binary64}

theorem fractionField_lt (x : Binary64) : x.fractionField < 2 ^ 52 := Nat.mod_lt _ (by decide)

theorem exponentField_lt (x : Binary64) : x.exponentField < 2048 := Nat.mod_lt _ (by decide)

theorem ofFields_self (x : Binary64) :
    ofFields x.isNegative x.exponentField x.fractionField = x := by
  obtain ⟨bits⟩ := x
  have hlt : bits.toNat < 2 ^ 64 := bits.toNat_lt
  have hsum : (if (⟨bits⟩ : Binary64).isNegative then Nat.pow 2 63 else 0) +
      (⟨bits⟩ : Binary64).exponentField * Nat.pow 2 52 + (⟨bits⟩ : Binary64).fractionField =
        bits.toNat := by
    simp only [isNegative, exponentField, fractionField, Nat.pow_eq, beq_iff_eq]
    split <;> omega
  rw [ofFields, hsum, UInt64.ofNat_toNat]

theorem isFinite_ofFields (negative : Bool) {exponent fraction : Nat} (he : exponent < 2047)
    (hf : fraction < 2 ^ 52) : (ofFields negative exponent fraction).isFinite = true := by
  have hword : (ofFields negative exponent fraction).bits.toNat =
      (if negative then 2 ^ 63 else 0) + exponent * 2 ^ 52 + fraction := by
    rw [ofFields, UInt64.toNat_ofNat']
    simp only [Nat.pow_eq]
    split <;> omega
  rw [isFinite, exponentField, hword, bne_iff_ne]
  simp only [Nat.pow_eq]
  split <;> omega

theorem scale_bounds (hfinite : x.isFinite = true) : -1074 ≤ x.scale ∧ x.scale < 972 := by
  have hlt := exponentField_lt x
  rw [isFinite, bne_iff_ne] at hfinite
  rw [scale]
  split <;> omega

theorem significand_bounds (x : Binary64) :
    x.significand < 2 ^ 53 ∧ (2 ^ 52 ≤ x.significand ∨ x.scale = -1074) := by
  have hlt := fractionField_lt x
  rw [significand, scale]
  simp only [Nat.pow_eq]
  split <;> omega

theorem pack_of_ne (h : m ≠ 2 ^ 53) (negative : Bool) (q : Int) :
    pack negative m q =
      if m < 2 ^ 52 then some (ofFields negative 0 m)
      else if 972 ≤ q then none
      else some (ofFields negative (q + 1075).toNat (m - 2 ^ 52)) := by
  have hne : m ≠ Nat.pow 2 53 := h
  rw [pack, if_neg hne]
  rfl

/-- One digit too many at one scale is a power of two at the next. -/
theorem pack_carry (negative : Bool) (q : Int) :
    pack negative (2 ^ 53) q = pack negative (2 ^ 52) (q + 1) := by
  have htop : 2 ^ 53 = Nat.pow 2 53 := rfl
  rw [pack_of_ne (m := 2 ^ 52) (by decide), pack, if_pos htop]
  rfl

theorem pack_self (hfinite : x.isFinite = true) :
    pack x.isNegative x.significand x.scale = some x := by
  have hbound := (significand_bounds x).1
  have hscale := (scale_bounds hfinite).2
  have hfraction := fractionField_lt x
  have hself := ofFields_self x
  rw [pack_of_ne (Nat.ne_of_lt hbound)]
  by_cases he : x.exponentField = 0
  · have hm : x.significand = x.fractionField := if_pos he
    rw [he] at hself
    rw [if_pos (hm ▸ hfraction), hm, hself]
  · have hm : x.significand = 2 ^ 52 + x.fractionField := if_neg he
    have hs : x.scale = (x.exponentField : Int) - 1075 := if_neg he
    have hexponent : (x.scale + 1075).toNat = x.exponentField := by omega
    rw [if_neg (by omega), if_neg (Int.not_le.mpr hscale), hexponent, hm, Nat.add_sub_cancel_left,
      hself]

/-! ## Reading a quotient -/

/-- `v` is one of the numbers that round to `x`. -/
structure Near (x : Binary64) (v : ℚ) : Prop where
  rounds : Rounds (v / 2 ^ x.scale) x.significand
  edge : x.fractionField = 0 → 1 < x.exponentField →
    (x.significand : ℚ) - 1 / 4 ≤ v / 2 ^ x.scale

/-- At the scale that is guessed first a quotient has 53 or 54 binary digits. -/
theorem guess_bounds (hnum : 0 < num) (hden : 0 < den) :
    (2 : ℚ) ^ 52 < (num : ℚ) / den / 2 ^ ((Nat.log2 num : Int) - (Nat.log2 den : Int) - 53) ∧
      (num : ℚ) / den / 2 ^ ((Nat.log2 num : Int) - (Nat.log2 den : Int) - 53) < 2 ^ 54 := by
  have hden' : (0 : ℚ) < den := by exact_mod_cast hden
  have hnlow : (2 : ℚ) ^ (Nat.log2 num : Int) ≤ num := by
    rw [zpow_natCast]
    exact_mod_cast Nat.log2_self_le hnum.ne'
  have hnhigh : (num : ℚ) < 2 ^ ((Nat.log2 num : Int) + 1) := by
    exact_mod_cast Nat.lt_log2_self
  have hdlow : (2 : ℚ) ^ (Nat.log2 den : Int) ≤ den := by
    rw [zpow_natCast]
    exact_mod_cast Nat.log2_self_le hden.ne'
  have hdhigh : (den : ℚ) < 2 ^ ((Nat.log2 den : Int) + 1) := by
    exact_mod_cast Nat.lt_log2_self
  generalize (Nat.log2 num : Int) = a at *
  generalize (Nat.log2 den : Int) = b at *
  have hscale : (0 : ℚ) < 2 ^ (a - b - 53) := by positivity
  rw [lt_div_iff₀ hscale, div_lt_iff₀ hscale, lt_div_iff₀ hden', div_lt_iff₀ hden']
  have htwo : (2 : ℚ) ≠ 0 := by norm_num
  constructor
  · calc (2 : ℚ) ^ 52 * 2 ^ (a - b - 53) * den < 2 ^ 52 * 2 ^ (a - b - 53) * 2 ^ (b + 1) := by gcongr
      _ = 2 ^ a := by
        rw [← zpow_natCast, ← zpow_add₀ htwo, ← zpow_add₀ htwo]
        congr 1
        push_cast
        ring
      _ ≤ num := hnlow
  · calc (num : ℚ) < 2 ^ (a + 1) := hnhigh
      _ = 2 ^ 54 * 2 ^ (a - b - 53) * 2 ^ b := by
        rw [← zpow_natCast, ← zpow_add₀ htwo, ← zpow_add₀ htwo]
        congr 1
        push_cast
        ring
      _ ≤ 2 ^ 54 * 2 ^ (a - b - 53) * den := by gcongr

theorem div_zpow_anti (hv : 0 ≤ v) {a b : Int} (h : a ≤ b) : v / 2 ^ b ≤ v / 2 ^ a := by
  gcongr
  norm_num

theorem div_zpow_sub (v : ℚ) (a : Int) (k : Nat) : v / 2 ^ (a - k) = v / 2 ^ a * 2 ^ k := by
  rw [zpow_sub₀ (by norm_num), zpow_natCast, div_div_eq_mul_div, mul_div_right_comm]

/-- The power of two is even, so half a unit below it is not below it any more. -/
theorem Rounds.carries (h : Rounds v m) (hv : 2 ^ 53 - 1 / 2 ≤ v) :
    2 ^ 53 ≤ m := by
  have htop : Rounds (2 ^ 53 - 1 / 2) (2 ^ 53) :=
    ⟨by norm_num, by norm_num, fun _ => by norm_num⟩
  exact htop.mono h hv

section Guess

variable {v : ℚ} {g : Int} {R : Int → Nat}

/-- The scale that is taken after a first guess. -/
def settled (R : Int → Nat) (g : Int) : Int :=
  max (if 2 ^ 53 ≤ R g then g + 1 else g) (-1074)

theorem ofQuotient_eq (negative : Bool) (num den : Nat) :
    ofQuotient negative num den =
      pack negative
        (roundScaled num den
          (settled (roundScaled num den) ((Nat.log2 num : Int) - (Nat.log2 den : Int) - 53)))
        (settled (roundScaled num den) ((Nat.log2 num : Int) - (Nat.log2 den : Int) - 53)) :=
  rfl

/-- At a scale above that of the number there would not be enough digits. -/
theorem Near.guess_le (h : Near x v) (hv : 0 ≤ v) (hlow : 2 ^ 52 < v / 2 ^ g) : g ≤ x.scale := by
  by_contra hlt
  have hanti := div_zpow_anti hv (show x.scale ≤ g - 1 by omega)
  rw [show v / 2 ^ (g - 1) = v / 2 ^ g * 2 by simpa using div_zpow_sub v g 1] at hanti
  have hshort : ((x.significand + 1 : Nat) : ℚ) ≤ 2 ^ 53 := by
    exact_mod_cast (significand_bounds x).1
  have hhigh := h.rounds.high
  push_cast at hshort
  linarith

theorem Near.settled_least (h : Near x v) (hR : ∀ q, Rounds (v / 2 ^ q) (R q))
    (hg : g ≤ x.scale) (hleast : x.scale = -1074) : settled R g = x.scale := by
  have hm : R x.scale = x.significand := (hR x.scale).unique h.rounds
  have hshort := (significand_bounds x).1
  rw [settled]
  rcases hg.eq_or_lt with rfl | hlt
  · rw [if_neg (by omega)]
    omega
  · split <;> omega

/-- A number with a full significand is at least this far from the next lower power of two. -/
theorem Near.full_low (h : Near x v) (habove : -1074 < x.scale) :
    2 ^ 52 - 1 / 4 ≤ v / 2 ^ x.scale := by
  obtain ⟨-, hfull⟩ := significand_bounds x
  have hfull := hfull.resolve_right habove.ne'
  rcases hfull.eq_or_lt with heq | hlt
  · have he : x.exponentField ≠ 0 := fun he => by
      rw [scale, if_pos he] at habove
      exact absurd habove (lt_irrefl _)
    have hexponent : 1 < x.exponentField := by
      rw [scale, if_neg he] at habove
      omega
    have hfraction : x.fractionField = 0 := by
      rw [significand, if_neg he, Nat.pow_eq] at heq
      omega
    have hedge := h.edge hfraction hexponent
    rw [← heq] at hedge
    exact_mod_cast hedge
  · have hlow := h.rounds.low
    have hcast : ((2 ^ 52 + 1 : Nat) : ℚ) ≤ x.significand := by exact_mod_cast hlt
    push_cast at hcast
    linarith

/-- At a scale above the least one the guess is right after the correction, but for a quotient just
below a power of two, which rounds to that power at the next lower scale. -/
theorem Near.settled_above (h : Near x v) (hv : 0 ≤ v) (hR : ∀ q, Rounds (v / 2 ^ q) (R q))
    (hg : g ≤ x.scale) (hhigh : v / 2 ^ g < 2 ^ 54) (habove : -1074 < x.scale) :
    settled R g = x.scale ∨
      settled R g = x.scale - 1 ∧ R (x.scale - 1) = 2 ^ 53 ∧ x.significand = 2 ^ 52 := by
  have hm : R x.scale = x.significand := (hR x.scale).unique h.rounds
  obtain ⟨hshort, hfull⟩ := significand_bounds x
  have hfull := hfull.resolve_right habove.ne'
  have hw := h.full_low habove
  have hlow := h.rounds.low
  have hhalf : v / 2 ^ (x.scale - 1) = v / 2 ^ x.scale * 2 := by
    simpa using div_zpow_sub v x.scale 1
  -- Three guesses are left.
  have hclose : x.scale - 2 ≤ g := by
    by_contra hlt
    have hanti := div_zpow_anti hv (show g ≤ x.scale - 3 by omega)
    rw [show v / 2 ^ (x.scale - 3) = v / 2 ^ x.scale * 8 by
      simpa [show (2 : ℚ) ^ 3 = 8 by norm_num] using div_zpow_sub v x.scale 3] at hanti
    linarith
  have hcases : g = x.scale ∨ g = x.scale - 1 ∨ g = x.scale - 2 := by omega
  rw [settled]
  rcases hcases with rfl | rfl | rfl
  · left
    rw [if_neg (by omega)]
    omega
  · left
    have hcarry := (hR (x.scale - 1)).carries (by rw [hhalf]; linarith)
    rw [if_pos hcarry]
    omega
  · right
    have hquarter : v / 2 ^ (x.scale - 2) = v / 2 ^ x.scale * 4 := by
      simpa [show (2 : ℚ) ^ 2 = 4 by norm_num] using div_zpow_sub v x.scale 2
    have hcarry := (hR (x.scale - 2)).carries (by rw [hquarter]; linarith)
    rw [hquarter] at hhigh
    refine ⟨by rw [if_pos hcarry]; omega, ?_, ?_⟩
    · refine (hR (x.scale - 1)).unique ⟨?_, ?_, fun _ => by norm_num⟩
      · rw [hhalf]
        push_cast
        linarith
      · rw [hhalf]
        push_cast
        linarith
    · have hupper : (x.significand : ℚ) < 2 ^ 52 + 1 := by linarith
      have hnat : x.significand < 2 ^ 52 + 1 := by exact_mod_cast hupper
      omega

end Guess

theorem ofQuotient_of_near (hnum : 0 < num) (hden : 0 < den) (hfinite : x.isFinite = true)
    (hnear : Near x ((num : ℚ) / den)) :
    ofQuotient x.isNegative num den = some x := by
  obtain ⟨hlow, hhigh⟩ := guess_bounds hnum hden
  have hR := rounds_roundScaled num hden
  have hv : (0 : ℚ) ≤ (num : ℚ) / den := by positivity
  have hm : roundScaled num den x.scale = x.significand := (hR x.scale).unique hnear.rounds
  have hg := hnear.guess_le hv hlow
  rw [ofQuotient_eq]
  rcases (scale_bounds hfinite).1.eq_or_lt with hleast | habove
  · rw [hnear.settled_least hR hg hleast.symm, hm]
    exact pack_self hfinite
  · rcases hnear.settled_above hv hR hg hhigh habove with hsame | ⟨hbelow, htop, hpower⟩
    · rw [hsame, hm]
      exact pack_self hfinite
    · rw [hbelow, htop, pack_carry, Int.sub_add_cancel, ← hpower]
      exact pack_self hfinite

/-! ## What is read is finite -/

theorem isFinite_of_pack {q : Int} (hm : m ≤ 2 ^ 53) (h : pack negative m q = some y) :
    y.isFinite = true := by
  -- A carry leaves a shorter significand.
  have hshort : ∀ {m : Nat} {q : Int}, m < 2 ^ 53 → pack negative m q = some y →
      y.isFinite = true := by
    intro m q hm h
    rw [pack_of_ne (Nat.ne_of_lt hm)] at h
    split at h
    · next hlt => exact Option.some.inj h ▸ isFinite_ofFields negative (by decide) hlt
    · split at h
      · cases h
      · exact Option.some.inj h ▸ isFinite_ofFields negative (by omega) (by omega)
  rcases hm.eq_or_lt with rfl | hlt
  · rw [pack_carry] at h
    exact hshort (by decide) h
  · exact hshort hlt h

theorem settled_short {g : Int} {R : Int → Nat} (hv : 0 ≤ v) (hR : ∀ q, Rounds (v / 2 ^ q) (R q))
    (hhigh : v / 2 ^ g < 2 ^ 54) :
    R (settled R g) ≤ 2 ^ 53 := by
  by_cases hcarry : 2 ^ 53 ≤ R g
  · have hle : g + 1 ≤ settled R g := by
      rw [settled, if_pos hcarry]
      exact le_max_left ..
    have hanti := div_zpow_anti hv hle
    have hhalf : v / 2 ^ g = v / 2 ^ (g + 1) * 2 := by
      simpa using div_zpow_sub v (g + 1) 1
    have htop : Rounds (2 ^ 53) (2 ^ 53) := rounds_of_lt (by norm_num) (by norm_num)
    exact (hR _).mono htop (by linarith)
  · have hle : g ≤ settled R g := by
      rw [settled, if_neg hcarry]
      exact le_max_left ..
    exact ((hR _).mono (hR g) (div_zpow_anti hv hle)).trans (Nat.le_of_not_le hcarry)

theorem isFinite_of_ofQuotient (hnum : 0 < num) (hden : 0 < den)
    (h : ofQuotient negative num den = some y) : y.isFinite = true := by
  rw [ofQuotient_eq] at h
  exact isFinite_of_pack
    (settled_short (by positivity) (rounds_roundScaled num hden) (guess_bounds hnum hden).2) h

theorem isFinite_of_ofDecimal {e : Int} (h : ofDecimal negative n e = some y) :
    y.isFinite = true := by
  have hzero : (zero negative).isFinite = true := isFinite_ofFields negative (by decide) (by decide)
  have hpow : ∀ k : Nat, 0 < Nat.pow 10 k := fun k => Nat.pow_pos (by decide)
  rw [ofDecimal] at h
  split at h
  · exact Option.some.inj h ▸ hzero
  · next hn =>
    have hpos : 0 < n := Nat.pos_of_ne_zero hn
    dsimp only at h
    split_ifs at h
    · exact Option.some.inj h ▸ hzero
    · exact isFinite_of_ofQuotient (Nat.mul_pos hpos (hpow _)) Nat.one_pos h
    · exact isFinite_of_ofQuotient hpos (hpow _) h

/-! ## Reading a decimal -/

theorem places_bounds (hn : n ≠ 0) :
    10 ^ (ofDecimal.places n - 1) ≤ n ∧ n < 10 ^ ofDecimal.places n := by
  have hpos : 0 < ofDecimal.places n := Nat.length_toDigits_pos
  refine ⟨?_, (Nat.length_toDigits_le_iff (by decide) hpos).mp le_rfl⟩
  by_cases hone : ofDecimal.places n = 1
  · rw [hone]
    exact Nat.one_le_iff_ne_zero.mpr hn
  · by_contra hlt
    have hle := (Nat.length_toDigits_le_iff (b := 10) (k := ofDecimal.places n - 1) (by decide)
      (by omega)).mpr (Nat.lt_of_not_le hlt)
    change ofDecimal.places n ≤ ofDecimal.places n - 1 at hle
    omega

theorem two_pow_1024_lt : (2 : ℚ) ^ 53 * 2 ^ (971 : Int) < 10 ^ (310 : Int) := by
  have h : 2 ^ 53 * 2 ^ 971 < 10 ^ 310 := by decide +kernel
  exact_mod_cast h

theorem lt_two_pow_neg_1075 : (10 : ℚ) ^ (-330 : Int) < 1 / 2 * 2 ^ (-1074 : Int) := by
  have h : 2 * 2 ^ 1074 < 10 ^ 330 := by decide +kernel
  have hcast : (2 : ℚ) * 2 ^ (1074 : Int) < 10 ^ (330 : Int) := by exact_mod_cast h
  rw [zpow_neg, zpow_neg, one_div, ← mul_inv]
  exact inv_strictAnti₀ (by positivity) hcast

theorem Near.bounds (h : Near x v) (hfinite : x.isFinite = true) (hm : x.significand ≠ 0) :
    10 ^ (-330 : Int) < v ∧ v < 10 ^ (310 : Int) := by
  obtain ⟨hlow, hhigh⟩ := scale_bounds hfinite
  have hscale : (0 : ℚ) < 2 ^ x.scale := by positivity
  have hone : (1 : ℚ) ≤ x.significand := by exact_mod_cast Nat.one_le_iff_ne_zero.mpr hm
  have hshort : ((x.significand + 1 : Nat) : ℚ) ≤ 2 ^ 53 := by
    exact_mod_cast (significand_bounds x).1
  push_cast at hshort
  constructor
  · have hhalf : 1 / 2 ≤ v / 2 ^ x.scale := by linarith [h.rounds.low]
    rw [le_div_iff₀ hscale] at hhalf
    have hleast : (2 : ℚ) ^ (-1074 : Int) ≤ 2 ^ x.scale := zpow_le_zpow_right₀ (by norm_num) hlow
    linarith [lt_two_pow_neg_1075]
  · have htop : v / 2 ^ x.scale < 2 ^ 53 := by linarith [h.rounds.high]
    rw [div_lt_iff₀ hscale] at htop
    have hgreatest : (2 : ℚ) ^ x.scale ≤ 2 ^ (971 : Int) :=
      zpow_le_zpow_right₀ (by norm_num) (by omega)
    exact (htop.trans_le (mul_le_mul_of_nonneg_left hgreatest (by positivity))).trans
      two_pow_1024_lt

theorem ofDecimal_of_near {e : Int} (hfinite : x.isFinite = true) (hm : x.significand ≠ 0)
    (hnear : Near x (n * 10 ^ e)) :
    ofDecimal x.isNegative n e = some x := by
  obtain ⟨hsmall, hlarge⟩ := hnear.bounds hfinite hm
  have hn : n ≠ 0 := by
    rintro rfl
    have hleast : (0 : ℚ) < 10 ^ (-330 : Int) := by positivity
    simp only [Nat.cast_zero, zero_mul] at hsmall
    linarith
  obtain ⟨hlow, hhigh⟩ := places_bounds hn
  have hplaces : 0 < ofDecimal.places n := Nat.length_toDigits_pos
  have hten : (0 : ℚ) < 10 ^ e := by positivity
  -- Neither guard on the magnitude applies.
  have hover : ¬ 310 < (ofDecimal.places n : Int) + e := by
    intro hguard
    have hle : (10 : ℚ) ^ (310 : Int) ≤ n * 10 ^ e := calc
      (10 : ℚ) ^ (310 : Int) ≤ 10 ^ (((ofDecimal.places n - 1 : Nat) : Int) + e) :=
        zpow_le_zpow_right₀ (by norm_num) (by omega)
      _ = 10 ^ (ofDecimal.places n - 1) * 10 ^ e := by
        rw [zpow_add₀ (by norm_num), zpow_natCast]
      _ ≤ n * 10 ^ e := by gcongr; exact_mod_cast hlow
    linarith
  have hunder : ¬ (ofDecimal.places n : Int) + e < -330 := by
    intro hguard
    have hle : (n : ℚ) * 10 ^ e ≤ 10 ^ (-330 : Int) := calc
      (n : ℚ) * 10 ^ e ≤ 10 ^ ofDecimal.places n * 10 ^ e := by
        gcongr
        exact_mod_cast hhigh.le
      _ = 10 ^ ((ofDecimal.places n : Int) + e) := by
        rw [zpow_add₀ (by norm_num), zpow_natCast]
      _ ≤ 10 ^ (-330 : Int) := zpow_le_zpow_right₀ (by norm_num) hguard.le
    linarith
  have hpos : 0 < n := Nat.pos_of_ne_zero hn
  rw [ofDecimal, if_neg hn]
  dsimp only
  rw [if_neg hover, if_neg hunder]
  split
  · next he =>
    refine ofQuotient_of_near (Nat.mul_pos hpos (Nat.pow_pos (by decide))) Nat.one_pos hfinite ?_
    obtain ⟨k, rfl⟩ := Int.eq_ofNat_of_zero_le he
    simpa using hnear
  · next he =>
    refine ofQuotient_of_near hpos (Nat.pow_pos (by decide)) hfinite ?_
    obtain ⟨k, rfl⟩ := Int.exists_eq_neg_ofNat (by omega : e ≤ 0)
    simpa [div_eq_mul_inv] using hnear

end LanguageClient.Decimal.Binary64
