import LanguageClient.Text.Numeral

/-!
# Conditions as arguments

A condition is given as a row of arguments: a text, a question about a text, a comparison, or the
opposite of one of these. Which of them it is depends on how many arguments there are. In a longer row
several conditions stand with words between them.
-/

namespace LanguageClient.Machine.Condition

inductive Comparison where
  | same | different | before | after
  | equal | unequal | atLeast | greater | atMost | less
  | newer | older | sameFile
  deriving DecidableEq, Repr

def comparisons : List (String × Comparison) := [
  ("=", .same), ("!=", .different), ("<", .before), (">", .after), ("-eq", .equal),
  ("-ne", .unequal), ("-ge", .atLeast), ("-gt", .greater), ("-le", .atMost), ("-lt", .less),
  ("-nt", .newer), ("-ot", .older), ("-ef", .sameFile)]

def questions : List Char :=
  ['b', 'c', 'd', 'e', 'f', 'g', 'h', 'k', 'L', 'n', 'p', 'r', 's', 'S', 't', 'u', 'w', 'x', 'z',
    'G', 'O']

def number? (cs : List Char) : Option Int :=
  let isBlank (c : Char) : Bool := c = ' ' || ('\t' ≤ c && c ≤ '\r')
  let cs := cs.dropWhile isBlank
  let cs := (cs.reverse.dropWhile isBlank).reverse
  let (negative, digits) := match cs with
    | '-' :: rest => (true, rest)
    | '+' :: rest => (false, rest)
    | _ => (false, cs)
  if digits.isEmpty then none
  else
    (Text.digitsValue 0 digits).bind fun n =>
      if n ≤ 9223372036854775807 then some (if negative then -(n : Int) else (n : Int)) else none

def precedes : List Char → List Char → Bool
  | _, [] => false
  | [], _ => true
  | a :: as, b :: bs => if a = b then precedes as bs else a < b

structure Files where
  /-- The answer to a question about a file, by its letter. -/
  ask : Char → List Char → Bool
  same : List Char → List Char → Bool

def Comparison.holds (files : Files) (a b : List Char) : Comparison → Option Bool
  | .same => some (a == b)
  | .different => some (a != b)
  | .before => some (precedes a b)
  | .after => some (precedes b a)
  | .newer | .older => some false
  | .sameFile => some (files.same a b)
  | .equal => do some (decide ((← number? a) = (← number? b)))
  | .unequal => do some (decide ((← number? a) ≠ (← number? b)))
  | .atLeast => do some (decide ((← number? b) ≤ (← number? a)))
  | .greater => do some (decide ((← number? b) < (← number? a)))
  | .atMost => do some (decide ((← number? a) ≤ (← number? b)))
  | .less => do some (decide ((← number? a) < (← number? b)))

def answer (files : Files) (letter : Char) (cs : List Char) : Option Bool :=
  match letter with
  | 'n' => some !cs.isEmpty
  | 'z' => some cs.isEmpty
  | 't' => (number? cs).map fun _ => false
  | _ => some (files.ask letter cs)

/-- A comparison goes before a negation: an exclamation mark can be compared with something. -/
def single (files : Files) : List (List Char) → Option Bool
  | [] => some false
  | [a] => some !a.isEmpty
  | [a, b, c] =>
    match comparisons.lookup (String.ofList b) with
    | some comparison => comparison.holds files a c
    | none => if a = ['!'] then (single files [b, c]).map (!·) else none
  | ['!'] :: rest => (single files rest).map (!·)
  | [['-', letter], a] => if questions.contains letter then answer files letter a else none
  | _ => none

def evaluate (files : Files) (arguments : List (List Char)) : Option Bool :=
  if arguments.length ≤ 4 then single files arguments
  else do
    let alternatives ← (arguments.splitOn ['-', 'o']).mapM fun all =>
      (all.splitOn ['-', 'a']).mapM (single files)
    some (alternatives.any (·.all id))

/-- The status of a condition: zero if it holds, one if it does not, two if it makes no sense. -/
def status (files : Files) (arguments : List (List Char)) : Nat :=
  match evaluate files arguments with
  | some true => 0
  | some false => 1
  | none => 2

end LanguageClient.Machine.Condition
