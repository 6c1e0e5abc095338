import LanguageClient.Transport.Retry
import Mathlib.Algebra.Order.Ring.Nat

/-!
# Delays in closed form

A delay is computed with words: a single bit is moved up in a 32-bit word, the first delay is taken
that many times without exceeding the longest duration, and the result is cut at the cap. Here each
step gets its value as a number. The bit is never moved out of its word (`toNat_factor`), and since
the cap is a duration itself, saturating below it cannot be told from exact arithmetic
(`nanos_backoff`). Everything else about delays is read off that closed form.

Adding up delays is the only step that can fail. It fails exactly if the exact sum is too long for a
duration (`sum?_eq_some_iff`), because sums only grow.
-/

namespace LanguageClient

namespace Duration

theorem eq_of_nanos {a b : Duration} (h : a.nanos = b.nanos) : a = b := by
  cases a
  cases b
  simpa using h

@[simp] theorem nanos_scale (d : Duration) (times : UInt32) :
    (d.scale times).nanos = min (d.nanos * times.toNat) maxNanos := rfl

@[simp] theorem nanos_shorter (a b : Duration) : (a.shorter b).nanos = min a.nanos b.nanos := by
  simp only [shorter, apply_ite nanos, min_def]

/-! ## Sums -/

theorem foldl_none (ds : List Duration) :
    ds.foldl (fun acc d => acc.bind (·.add? d)) (none : Option Duration) = none := by
  induction ds with
  | nil => rfl
  | cons d ds ih => simpa using ih

/-- The invariant of summing up: what has been added so far, and the rest. -/
theorem foldl_add?_eq_some_iff {acc total : Duration} {ds : List Duration} :
    ds.foldl (fun acc d => acc.bind (·.add? d)) (some acc) = some total ↔
      total.nanos = acc.nanos + (ds.map nanos).sum := by
  induction ds generalizing acc with
  | nil =>
    simp only [List.foldl_nil, Option.some.injEq, List.map_nil, List.sum_nil, Nat.add_zero]
    constructor
    · rintro rfl
      rfl
    · intro h
      exact eq_of_nanos h.symm
  | cons d ds ih =>
    rw [List.foldl_cons, Option.bind_some, List.map_cons, List.sum_cons]
    by_cases hfits : acc.nanos + d.nanos ≤ maxNanos
    · rw [add?, dif_pos hfits, ih]
      simp only [Nat.add_assoc]
    · -- Nothing that is added later makes up for what is too long now.
      rw [add?, dif_neg hfits, foldl_none]
      constructor
      · intro h
        cases h
      · intro h
        have hbound := total.isLe
        omega

theorem sum?_eq_some_iff {ds : List Duration} {total : Duration} :
    sum? ds = some total ↔ total.nanos = (ds.map nanos).sum := by
  rw [sum?, foldl_add?_eq_some_iff]
  simp [zero]

theorem sum?_eq_none_iff {ds : List Duration} :
    sum? ds = none ↔ maxNanos < (ds.map nanos).sum := by
  constructor
  · intro hnone
    by_contra hfits
    have hsome : sum? ds = some ⟨(ds.map nanos).sum, by omega⟩ := sum?_eq_some_iff.mpr rfl
    rw [hnone] at hsome
    cases hsome
  · intro hlong
    cases hsum : sum? ds with
    | none => rfl
    | some total =>
      have hnanos := sum?_eq_some_iff.mp hsum
      have hbound := total.isLe
      omega

end Duration

namespace RetryPolicy

/-! ## One delay -/

theorem toNat_shiftLeft_one {k : Nat} (h : k < 32) :
    ((1 : UInt32) <<< UInt32.ofNat k).toNat = 2 ^ k := by
  have hk : (UInt32.ofNat k).toNat = k := UInt32.toNat_ofNat_of_lt' (by simp [UInt32.size]; omega)
  have hpow : 2 ^ k < 2 ^ 32 := Nat.pow_lt_pow_right (by omega) h
  rw [UInt32.toNat_shiftLeft, hk, Nat.mod_eq_of_lt h, UInt32.toNat_one, Nat.one_shiftLeft,
    Nat.mod_eq_of_lt hpow]

theorem toNat_factor (attempt : Nat) :
    (factor attempt).toNat = min (2 ^ (attempt - 1)) (2 ^ 32 - 1) := by
  rw [factor]
  split
  · next h =>
    have hpow : 2 ^ (attempt - 1) ≤ 2 ^ 31 := Nat.pow_le_pow_right (by omega) (by omega)
    rw [toNat_shiftLeft_one h]
    omega
  · next h =>
    have hpow : 2 ^ 32 ≤ 2 ^ (attempt - 1) := Nat.pow_le_pow_right (by omega) (by omega)
    have hword : (4294967295 : UInt32).toNat = 2 ^ 32 - 1 := rfl
    rw [hword]
    omega

theorem nanos_backoff (p : RetryPolicy) (attempt : Nat) :
    (p.backoff attempt).nanos =
      min (p.initialBackoff.nanos * min (2 ^ (attempt - 1)) (2 ^ 32 - 1)) p.maxBackoff.nanos := by
  have hcap := p.maxBackoff.isLe
  rw [backoff, Duration.nanos_shorter, Duration.nanos_scale, toNat_factor]
  omega

theorem backoff_le (p : RetryPolicy) (attempt : Nat) :
    (p.backoff attempt).nanos ≤ p.maxBackoff.nanos := by
  rw [nanos_backoff]
  exact Nat.min_le_right ..

theorem backoff_mono (p : RetryPolicy) {attempt later : Nat} (h : attempt ≤ later) :
    (p.backoff attempt).nanos ≤ (p.backoff later).nanos := by
  have hpow : 2 ^ (attempt - 1) ≤ 2 ^ (later - 1) := Nat.pow_le_pow_right (by omega) (by omega)
  simp only [nanos_backoff]
  gcongr

/-- While the factor has room in its word, the doubling is exact. -/
theorem backoff_of_le (p : RetryPolicy) {attempt : Nat} (h : attempt ≤ 32) :
    (p.backoff attempt).nanos =
      min (p.initialBackoff.nanos * 2 ^ (attempt - 1)) p.maxBackoff.nanos := by
  have hpow : 2 ^ (attempt - 1) ≤ 2 ^ 31 := Nat.pow_le_pow_right (by omega) (by omega)
  have hexact : min (2 ^ (attempt - 1)) (2 ^ 32 - 1) = 2 ^ (attempt - 1) := by omega
  rw [nanos_backoff, hexact]

/-- Once the largest factor reaches the cap, it does not matter that the doubling stops there. -/
theorem backoff_of_gt (p : RetryPolicy) {attempt : Nat} (h : 32 < attempt)
    (hcap : p.maxBackoff.nanos ≤ p.initialBackoff.nanos * (2 ^ 32 - 1)) :
    (p.backoff attempt).nanos =
      min (p.initialBackoff.nanos * 2 ^ (attempt - 1)) p.maxBackoff.nanos := by
  have hpow : 2 ^ 32 - 1 ≤ 2 ^ (attempt - 1) := by
    have hle : 2 ^ 32 ≤ 2 ^ (attempt - 1) := Nat.pow_le_pow_right (by omega) (by omega)
    omega
  have hgrow : p.initialBackoff.nanos * (2 ^ 32 - 1) ≤
      p.initialBackoff.nanos * 2 ^ (attempt - 1) := Nat.mul_le_mul_left _ hpow
  rw [nanos_backoff, Nat.min_eq_right hpow, Nat.min_eq_right hcap,
    Nat.min_eq_right (Nat.le_trans hcap hgrow)]

/-- Delays double up to the cap. No step overflows: the factor is a power of two or the largest
word, and taking the first delay that many times gives the exact product or the longest duration.
The delay is never longer than the cap, never gets shorter, and is the exact minimum of the doubled
first delay and the cap as long as the factor has room, and from then on if the largest factor takes
the first delay to the cap. -/
theorem backoff_doubles_up_to_cap (p : RetryPolicy) :
    (∀ attempt, (factor attempt).toNat = min (2 ^ (attempt - 1)) (2 ^ 32 - 1) ∧
      (p.initialBackoff.scale (factor attempt)).nanos =
        min (p.initialBackoff.nanos * (factor attempt).toNat) Duration.maxNanos) ∧
    (∀ attempt, (p.backoff attempt).nanos ≤ p.maxBackoff.nanos) ∧
    (∀ attempt later, attempt ≤ later → (p.backoff attempt).nanos ≤ (p.backoff later).nanos) ∧
    p.backoff 0 = p.backoff 1 ∧
    (∀ attempt, 1 ≤ attempt → attempt ≤ 32 → (p.backoff attempt).nanos =
      min (p.initialBackoff.nanos * 2 ^ (attempt - 1)) p.maxBackoff.nanos) ∧
    (p.maxBackoff.nanos ≤ p.initialBackoff.nanos * (2 ^ 32 - 1) →
      ∀ attempt, 33 ≤ attempt → (p.backoff attempt).nanos =
        min (p.initialBackoff.nanos * 2 ^ (attempt - 1)) p.maxBackoff.nanos) := by
  refine ⟨?_, p.backoff_le, ?_, rfl, ?_, ?_⟩
  · intro attempt
    exact ⟨toNat_factor attempt, Duration.nanos_scale ..⟩
  · intro attempt later h
    exact p.backoff_mono h
  · intro attempt _ h
    exact p.backoff_of_le h
  · intro hcap attempt h
    exact p.backoff_of_gt h hcap

/-- Doubling a delay of about 272 years thirty-one times takes it beyond the longest duration. -/
theorem backoff_reaches_longest_duration :
    let p : RetryPolicy :=
      { initialBackoff := ⟨8589934592000000001, by decide⟩, maxBackoff := Duration.max }
    p.maxBackoff.nanos ≤ p.initialBackoff.nanos * (2 ^ 32 - 1) ∧
      Duration.maxNanos < p.initialBackoff.nanos * 2 ^ 31 ∧
      (p.backoff 32).nanos = min (p.initialBackoff.nanos * 2 ^ 31) p.maxBackoff.nanos ∧
      (p.backoff 33).nanos = min (p.initialBackoff.nanos * 2 ^ 32) p.maxBackoff.nanos := by
  intro p
  have hcap : p.maxBackoff.nanos ≤ p.initialBackoff.nanos * (2 ^ 32 - 1) := by decide
  obtain ⟨-, -, -, -, hexact, hlate⟩ := backoff_doubles_up_to_cap p
  exact ⟨hcap, by decide, hexact 32 (by omega) (by omega), hlate hcap 33 (by omega)⟩

end RetryPolicy

end LanguageClient
