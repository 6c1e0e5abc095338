/-!
# Double-precision numbers as words

A JSON number that is no machine integer is a double-precision number. It is kept here as its
64-bit word and never as a hardware float, so that equality is equality of words (the two zeros
differ, as they do in text) and every conversion is exact arithmetic on natural numbers.

A finite word stands for `significand · 2 ^ scale`. Reading rounds a decimal to the nearest such
value, a half going to the even significand, and answers nothing when the nearest value would lie
beyond the largest finite one.
-/

namespace LanguageClient.Decimal

structure Binary64 where
  /-- Sign, eleven bits of exponent, fifty-two bits of fraction. -/
  bits : UInt64
  deriving DecidableEq, Repr

namespace Binary64

def isNegative (x : Binary64) : Bool := x.bits.toNat / Nat.pow 2 63 == 1

def exponentField (x : Binary64) : Nat := x.bits.toNat / Nat.pow 2 52 % 2048

def fractionField (x : Binary64) : Nat := x.bits.toNat % Nat.pow 2 52

def isFinite (x : Binary64) : Bool := x.exponentField != 2047

/-- The integer `m` of the magnitude `m · 2 ^ scale`. -/
def significand (x : Binary64) : Nat :=
  if x.exponentField = 0 then x.fractionField else Nat.pow 2 52 + x.fractionField

/-- The exponent of the magnitude `significand · 2 ^ scale`. -/
def scale (x : Binary64) : Int :=
  if x.exponentField = 0 then -1074 else (x.exponentField : Int) - 1075

def ofFields (negative : Bool) (exponent fraction : Nat) : Binary64 :=
  ⟨UInt64.ofNat ((if negative then Nat.pow 2 63 else 0) + exponent * Nat.pow 2 52 + fraction)⟩

def zero (negative : Bool) : Binary64 := ofFields negative 0 0

/-- A quotient rounded to the nearest integer, a half to the even one. -/
def roundDiv (num den : Nat) : Nat :=
  let q := num / den
  let r := num % den
  if 2 * r < den then q
  else if den < 2 * r then q + 1
  else if q % 2 = 0 then q else q + 1

/-- The quotient `num / (den · 2 ^ q)` rounded to the nearest integer. -/
def roundScaled (num den : Nat) (q : Int) : Nat :=
  if 0 ≤ q then roundDiv num (den * Nat.pow 2 q.toNat)
  else roundDiv (num * Nat.pow 2 (-q).toNat) den

/-- The word for `m · 2 ^ q`, where `m ≤ 2 ^ 53` and `q` is the scale of the result or, when `m` is
`2 ^ 53`, one less; nothing past the largest finite value. -/
def pack (negative : Bool) (m : Nat) (q : Int) : Option Binary64 :=
  let (m, q) := if m = Nat.pow 2 53 then (Nat.pow 2 52, q + 1) else (m, q)
  if m < Nat.pow 2 52 then some (ofFields negative 0 m)
  else if 972 ≤ q then none
  else some (ofFields negative (q + 1075).toNat (m - Nat.pow 2 52))

def ofQuotient (negative : Bool) (num den : Nat) : Option Binary64 :=
  let guess : Int := (Nat.log2 num : Int) - (Nat.log2 den : Int) - 53
  -- The quotient has 53 or 54 binary digits at scale `guess`; one step up if 54.
  let q := if Nat.pow 2 53 ≤ roundScaled num den guess then guess + 1 else guess
  let q := max q (-1074)
  pack negative (roundScaled num den q) q

/-- The word nearest to `digits · 10 ^ exponent`; nothing if that is past the finite values. -/
def ofDecimal (negative : Bool) (digits : Nat) (exponent : Int) : Option Binary64 :=
  if digits = 0 then some (zero negative)
  else
    let magnitude : Int := (places digits : Int) + exponent
    if 310 < magnitude then none
    else if magnitude < -330 then some (zero negative)
    else if 0 ≤ exponent then ofQuotient negative (digits * Nat.pow 10 exponent.toNat) 1
    else ofQuotient negative digits (Nat.pow 10 (-exponent).toNat)
where
  places (n : Nat) : Nat := (Nat.toDigits 10 n).length

def ofInt (n : Int) : Option Binary64 := ofDecimal (n < 0) n.natAbs 0

end Binary64

end LanguageClient.Decimal
