/-!
# Base sixteen

Digits are written in lower case and read in either. An octet is written as two digits, the high one
first.
-/

namespace LanguageClient.Text.Hex

def digit (n : Nat) : Char := if n < 10 then Char.ofNat (48 + n) else Char.ofNat (87 + n)

def valueOfCode (n : Nat) : Option Nat :=
  if 48 ≤ n ∧ n ≤ 57 then some (n - 48)
  else if 65 ≤ n ∧ n ≤ 70 then some (n - 55)
  else if 97 ≤ n ∧ n ≤ 102 then some (n - 87)
  else none

def value (c : Char) : Option Nat := valueOfCode c.toNat

def number (cs : List Char) : Option Nat :=
  cs.foldl (fun acc c => acc.bind fun n => (value c).map (16 * n + ·)) (some 0)

/-- The same in a smaller base. -/
def numberIn (base : Nat) (cs : List Char) : Option Nat :=
  cs.foldl (fun acc c =>
    acc.bind fun n => (value c).bind fun d => if d < base then some (base * n + d) else none)
    (some 0)

def encode (bytes : List UInt8) : List Char :=
  bytes.flatMap fun b => [digit (b.toNat / 16), digit (b.toNat % 16)]

def decode : List Char → Option (List UInt8)
  | [] => some []
  | a :: b :: rest =>
    match number [a, b], decode rest with
    | some n, some bytes => some (UInt8.ofNat n :: bytes)
    | _, _ => none
  | [_] => none

end LanguageClient.Text.Hex
