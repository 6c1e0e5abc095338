import LanguageClient.Decimal.Binary64

/-!
# The fewest digits that read back

The reals that round to a given double-precision number form an interval around it, closed exactly
when the significand is even. Among the decimals inside that interval this module picks one with
the fewest digits, and among those the nearest to the number. The search is the definition: for
one, two, … seventeen digits it tests the two neighbours of the number on that decimal grid, in
exact arithmetic, and the first grid with a hit wins.

How the digits are then laid out (positionally or with an exponent) is a decision of whoever prints
the number, so it is a record, `Layout`, and not part of the search.
-/

namespace LanguageClient.Decimal

/-- The comparison of `a · 2 ^ p` with `c · 10 ^ g`. -/
def compareScaled (a : Nat) (p : Int) (c : Nat) (g : Int) : Ordering :=
  compare (a * Nat.pow 2 p.toNat * Nat.pow 10 (-g).toNat)
    (c * Nat.pow 10 g.toNat * Nat.pow 2 (-p).toNat)

/-- The interval of reals that round to a positive finite number, and the number itself, all in
units of `2 ^ unit`. -/
structure Interval where
  low : Nat
  mid : Nat
  high : Nat
  unit : Int
  /-- Whether the ends themselves round to the number. -/
  closed : Bool

namespace Binary64

/-- The rounding interval of a positive finite number. Below a power of two the neighbours lie
half as far apart. -/
def interval (x : Binary64) : Interval :=
  let m := x.significand
  let low := if x.fractionField = 0 && 1 < x.exponentField then 4 * m - 1 else 4 * m - 2
  ⟨low, 4 * m, 4 * m + 2, x.scale - 2, m % 2 == 0⟩

end Binary64

def Interval.contains (r : Interval) (c : Nat) (g : Int) : Bool :=
  match compareScaled r.low r.unit c g, compareScaled r.high r.unit c g with
  | .lt, .gt => true
  | .eq, _ => r.closed
  | _, .eq => r.closed
  | _, _ => false

/-- The integer part of the number in units of `10 ^ g`. -/
def Interval.floorAt (r : Interval) (g : Int) : Nat :=
  (r.mid * Nat.pow 2 r.unit.toNat * Nat.pow 10 (-g).toNat) /
    (Nat.pow 10 g.toNat * Nat.pow 2 (-r.unit).toNat)

/-- Of two neighbours `c` and `c + 1` on the grid, whether the lower is at least as near. -/
def Interval.lowerIsNearer (r : Interval) (c : Nat) (g : Int) : Bool :=
  match compareScaled (2 * r.mid) r.unit (2 * c + 1) g with
  | .gt => false
  | .lt => true
  | .eq => c % 2 == 0

/-- The nearest point of the grid `10 ^ g` inside the interval, if one of the number's two
neighbours on the grid is inside. -/
def Interval.hitAt (r : Interval) (g : Int) : Option Nat :=
  let c := r.floorAt g
  match r.contains c g, r.contains (c + 1) g with
  | true, true => some (if r.lowerIsNearer c g then c else c + 1)
  | true, false => some c
  | false, true => some (c + 1)
  | false, false => none

/-- Searches the grids `10 ^ g`, `10 ^ (g - 1)`, … for the first hit. -/
def Interval.search (r : Interval) : Nat → Int → Nat × Int
  | 0, g => (r.floorAt g, g)
  | tries + 1, g =>
    match r.hitAt g with
    | some c => if c = 0 then r.search tries (g - 1) else (c, g)
    | none => r.search tries (g - 1)

/-- The digits of a decimal `0.d₁d₂… · 10 ^ point`, without a zero at the end. -/
structure Digits where
  digits : List Char
  /-- Where the decimal point stands, counted from the front of the digits. -/
  point : Int
  deriving DecidableEq, Repr

def dropTrailingZeros (cs : List Char) : List Char :=
  (cs.reverse.dropWhile (· == '0')).reverse

def Digits.ofNat (c : Nat) (g : Int) : Digits :=
  let all := Nat.toDigits 10 c
  ⟨dropTrailingZeros all, (all.length : Int) + g⟩

/-- The fewest digits that read back as the magnitude of a finite non-zero number. -/
def Binary64.shortest (x : Binary64) : Digits :=
  let r := x.interval
  -- An upper bound on the number of digits before the point.
  let top : Int := ((Nat.log2 r.mid : Int) + r.unit) * 30103 / 100000 + 1
  let (c, g) := r.search 19 top
  Digits.ofNat c g

/-- How a printer lays digits out: positionally while the point lies in a range, with an exponent
otherwise. -/
structure Layout where
  least : Int
  greatest : Int
  signedExponent : Bool

/-- The digits with the point in place and at least one digit on either side. -/
def Digits.positional (d : Digits) : List Char :=
  if d.point ≤ 0 then '0' :: '.' :: (List.replicate (-d.point).toNat '0' ++ d.digits)
  else
    let n := d.point.toNat
    let whole := d.digits.take n ++ List.replicate (n - d.digits.length) '0'
    match d.digits.drop n with
    | [] => whole ++ ['.', '0']
    | fraction => whole ++ '.' :: fraction

/-- One digit, the others as a fraction, and the exponent. -/
def Digits.scientific (d : Digits) (signed : Bool) : List Char :=
  let e := d.point - 1
  let sign := if e < 0 then ['-'] else if signed then ['+'] else []
  let mantissa := match d.digits with
    | [] => ['0']
    | [c] => [c]
    | c :: cs => c :: '.' :: cs
  mantissa ++ 'e' :: (sign ++ Nat.toDigits 10 e.natAbs)

def Layout.write (l : Layout) (x : Binary64) : List Char :=
  let sign := if x.isNegative then ['-'] else []
  if x.significand = 0 then sign ++ ['0', '.', '0']
  else
    let d := x.shortest
    if l.least ≤ d.point && d.point ≤ l.greatest then sign ++ d.positional
    else sign ++ d.scientific l.signedExponent

end LanguageClient.Decimal
