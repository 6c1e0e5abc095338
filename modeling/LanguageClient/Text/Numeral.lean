/-!
# Unsigned decimal numerals

Numerals are written in their shortest form and read liberally: one `+` may stand in front and
leading zeros are allowed. A reader is always told the largest value it may return, because every
numeral of this library ends up in a word of fixed width (a port, a frame length, an attempt).
-/

namespace LanguageClient.Text

/-- The decimal digits of a number, most significant first and without leading zeros. -/
def numeral (n : Nat) : List Char := Nat.toDigits 10 n

def digitValue (c : Char) : Option Nat :=
  if '0' ≤ c && c ≤ '9' then some (c.toNat - 48) else none

/-- The value of a run of digits that follows digits worth `acc`; every character must be one. -/
def digitsValue : Nat → List Char → Option Nat
  | acc, [] => some acc
  | acc, c :: cs =>
    match digitValue c with
    | some d => digitsValue (10 * acc + d) cs
    | none => none

/-- Reads an unsigned numeral of at most `limit`: one optional `+`, then at least one digit and
nothing else. -/
def readNumeral (limit : Nat) (cs : List Char) : Option Nat :=
  let digits := match cs with
    | '+' :: rest => rest
    | _ => cs
  match digits with
  | [] => none
  | _ => (digitsValue 0 digits).filter (· ≤ limit)

def maxWord16 : Nat := 65535

def maxWord32 : Nat := 4294967295

def maxWord64 : Nat := 18446744073709551615

end LanguageClient.Text
