import LanguageClient.Json.Basic
import LanguageClient.Toml.Fault

/-!
# Numbers, truth values and dates

Everything in a configuration file that is neither quoted nor bracketed is a single word: a truth
value, an integer in one of four bases, a number with a fraction or an exponent, or a date or time.
This module reads such words. Digits may be grouped by underscores, each between two digits.

A date has no counterpart among the values that settings can have. It is kept as a record with one
member whose name no setting uses.
-/

namespace LanguageClient.Toml

def digitIn (base : Nat) (c : Char) : Option Nat :=
  let v :=
    if '0' ≤ c && c ≤ '9' then c.toNat - 48
    else if 'a' ≤ c && c ≤ 'f' then c.toNat - 87
    else if 'A' ≤ c && c ≤ 'F' then c.toNat - 55
    else 16
  if v < base then some v else none

/-- Reads on in a run of digits: a digit, or an underscore and a digit. The value so far, the number
of digits so far, and whether an underscore may come next are carried along. -/
def groupedFrom (base : Nat) : Nat → Nat → Bool → List Char → Option (Nat × Nat)
  | value, count, afterDigit, [] => if afterDigit then some (value, count) else none
  | value, count, afterDigit, c :: cs =>
    if c = '_' then (if afterDigit then groupedFrom base value count false cs else none)
    else match digitIn base c with
      | some d => groupedFrom base (base * value + d) (count + 1) true cs
      | none => none

def grouped (base : Nat) (cs : List Char) : Option (Nat × Nat) := groupedFrom base 0 0 false cs

def asWord64 (n : Int) : Option Json :=
  if -9223372036854775808 ≤ n ∧ n ≤ 9223372036854775807 then some (Json.ofInt n) else none

def takeSign : List Char → Bool × List Char
  | '-' :: rest => (true, rest)
  | '+' :: rest => (false, rest)
  | cs => (false, cs)

/-- Digits that do not begin with a superfluous zero. -/
def wholePart (cs : List Char) : Option Nat :=
  match cs with
  | '0' :: _ :: _ => none
  | _ => (grouped 10 cs).map (·.1)

/-- An integer: decimal with a sign or without, or in base sixteen, eight or two without a sign. -/
def readInteger : List Char → Option Json
  | '0' :: 'x' :: digits => (grouped 16 digits).bind fun v => asWord64 v.1
  | '0' :: 'o' :: digits => (grouped 8 digits).bind fun v => asWord64 v.1
  | '0' :: 'b' :: digits => (grouped 2 digits).bind fun v => asWord64 v.1
  | cs =>
    let (negative, digits) := takeSign cs
    (wholePart digits).bind fun n => asWord64 (if negative then -n else n)

def cutAt (p : Char → Bool) (cs : List Char) : List Char × List Char := cs.span (fun c => !p c)

/-- A number with a fraction, an exponent, or both. One beyond the largest number is refused. -/
def readFraction (cs : List Char) : Option Json :=
  let (negative, cs) := takeSign cs
  let (mantissa, exponentPart) := cutAt (fun c => c = 'e' || c = 'E') cs
  let (whole, fractionPart) := cutAt (· = '.') mantissa
  match wholePart whole with
  | none => none
  | some w =>
    let fraction : Option (Nat × Nat) := match fractionPart with
      | [] => some (0, 0)
      | _ :: digits => grouped 10 digits
    let exponent : Option Int := match exponentPart with
      | [] => some 0
      | _ :: rest =>
        let (down, digits) := takeSign rest
        (grouped 10 digits).map fun e => if down then -(e.1 : Int) else (e.1 : Int)
    match fraction, exponent with
    | some (f, places), some e =>
      if fractionPart.isEmpty && exponentPart.isEmpty then none
      else
        (Decimal.Binary64.ofDecimal negative (w * Nat.pow 10 places + f) (e - places)).map fun x =>
          .num (.float x)
    | _, _ => none

def readUnbounded (cs : List Char) : Option Json :=
  let (_, word) := takeSign cs
  if word = ['i', 'n', 'f'] ∨ word = ['n', 'a', 'n'] then some .null else none

/-! ## Dates and times -/

def fixedNumber (low high : Nat) (digits : List Char) : Bool :=
  match Text.digitsValue 0 digits with
  | some n => low ≤ n && n ≤ high
  | none => false

def daysIn (year month : Nat) : Nat :=
  let leap := year % 4 = 0 ∧ (year % 100 ≠ 0 ∨ year % 400 = 0)
  if month = 2 then (if leap then 29 else 28)
  else if month = 4 ∨ month = 6 ∨ month = 9 ∨ month = 11 then 30
  else 31

def isDate : List Char → Bool
  | [y1, y2, y3, y4, '-', m1, m2, '-', d1, d2] =>
    match Text.digitsValue 0 [y1, y2, y3, y4], Text.digitsValue 0 [m1, m2] with
    | some year, some month =>
      1 ≤ month && month ≤ 12 && fixedNumber 1 (daysIn year month) [d1, d2]
    | _, _ => false
  | _ => false

def isOffset : List Char → Bool
  | [] => true
  | ['Z'] | ['z'] => true
  | [sign, h1, h2, ':', m1, m2] =>
    (sign = '+' || sign = '-') && fixedNumber 0 23 [h1, h2] && fixedNumber 0 59 [m1, m2]
  | _ => false

def startsTime : List Char → Bool
  | h1 :: h2 :: ':' :: m1 :: m2 :: _ => fixedNumber 0 23 [h1, h2] && fixedNumber 0 59 [m1, m2]
  | _ => false

/-- Whether what follows the minutes of a time of day is well formed: seconds, with a fraction or
without, and an offset if `offset` says that one may follow. Only the newer edition can do without
the seconds. -/
def endsTime (e : Edition) (offset : Bool) : List Char → Bool
  | ':' :: s1 :: s2 :: rest =>
    fixedNumber 0 60 [s1, s2] &&
      (match rest with
        | '.' :: digit :: more => digit.isDigit && zone (more.dropWhile Char.isDigit)
        | rest => zone rest)
  | rest => e = .newer && zone rest
where
  zone (rest : List Char) : Bool := if offset then isOffset rest else rest.isEmpty

def isTime (e : Edition) (offset : Bool) (cs : List Char) : Bool :=
  startsTime cs && endsTime e offset (cs.drop 5)

def startsMoment (cs : List Char) : Bool :=
  isDate (cs.take 10) &&
    match cs.drop 10 with
    | mark :: _ => mark = 'T' || mark = 't' || mark = ' '
    | [] => false

def isMoment (e : Edition) (cs : List Char) : Bool :=
  isDate cs || isTime e false cs || (startsMoment cs && isTime e true (cs.drop 11))

/-- The name of the one member of a date. -/
def momentMember : String := "$__toml_private_datetime"

def readMoment (e : Edition) (cs : List Char) : Option Json :=
  if isMoment e cs then some (.obj [(momentMember, .str (String.ofList cs))]) else none

def readWord? (e : Edition) (cs : List Char) : Option Json :=
  if cs = ['t', 'r', 'u', 'e'] then some (.bool true)
  else if cs = ['f', 'a', 'l', 's', 'e'] then some (.bool false)
  else ((readInteger cs).orElse fun _ => readFraction cs).orElse fun _ =>
    (readUnbounded cs).orElse fun _ => readMoment e cs

/-- Reads a word that something follows. A time that lacks its seconds is refused where they should
begin. -/
def readWord (e : Edition) (cs rest : List Char) : Except Fault (Json × List Char) :=
  match readWord? e cs with
  | some v => .ok (v, rest)
  | none =>
    if startsTime cs then refuse .shortTime (cs.drop 5 ++ rest)
    else if startsMoment cs && startsTime (cs.drop 11) then
      refuse .shortMoment (cs.drop 16 ++ rest)
    else refuse .malformed (cs ++ rest)

end LanguageClient.Toml
