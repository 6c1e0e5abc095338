/-!
# Large sets of characters

A set of characters that has no simple rule is a table. It lists the lengths of the runs in which
code points are outside and inside of the set by turns, the first run being outside. It is written as
a text: a letter is a length below 52, small letters being the smaller half, and a larger length is
written in digits with a blank behind it.
-/

namespace LanguageClient.Text

/-- The lengths that a text spells, given the number that the digits before it have come to. -/
def readRuns : Nat → List Char → List Nat
  | _, [] => []
  | n, c :: cs =>
    if c.isDigit then readRuns (10 * n + (c.toNat - 48)) cs
    else if c = ' ' then n :: readRuns 0 cs
    else if c.isLower then (c.toNat - 97) :: readRuns 0 cs
    else (c.toNat - 39) :: readRuns 0 cs

/-- Whether a code point, counted from the first one of the table, is in the set. -/
def inRuns : List Nat → Nat → Bool
  | outside :: inside :: runs, n =>
    outside ≤ n && (n < outside + inside || inRuns runs (n - (outside + inside)))
  | _, _ => false

end LanguageClient.Text
